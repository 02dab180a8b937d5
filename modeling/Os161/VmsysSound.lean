import Mathlib.Data.List.Pairwise
import Os161.LoadelfSound
import Os161.TeardownSound

/-!
# The invariant of the whole system

`SysOk` ties the state of the machine to the address spaces: the pages that
are alive are those of the spaces, each in one page table, the TLB holds
translations of the space it was last loaded for, and the runs of frames
handed to the kernel heap are the kernel's. Each operation keeps it.
-/

namespace Os161

open Linked Outcome

/-! ## What the spaces own -/

structure AddrSpace.Table (as : AddrSpace) (i : Nat) (pt : PageTable) : Prop where
  lt : i < asNumSeg
  active : (as.segments i).active ≠ 0
  eq : (as.segments i).pt = some pt

def HasTable (spaces : Nat → Option AddrSpace) (a i block : Nat) : Prop :=
  ∃ as pt, spaces a = some as ∧ as.Table i pt ∧ pt.block = block

def Sys.FreshBlock (s : Sys) (block : Nat) : Prop := ∀ a i, ¬ HasTable s.spaces a i block

def Sys.Live (s : Sys) (p : PdPtr) : Prop := ∃ a as, s.spaces a = some as ∧ p ∈ as.pages

structure SpacesOk (spaces : Nat → Option AddrSpace) : Prop where
  ok : ∀ a as, spaces a = some as → SpaceOk as
  file : ∀ a as, spaces a = some as → as.file ≠ none
  stack : ∀ a as, spaces a = some as → (as.segments (asNumSeg - 1)).active ≠ 0
  inj : ∀ a b i j block, HasTable spaces a i block → HasTable spaces b j block → a = b ∧ i = j

/-- What the TLB may hold: translations of the space it was last loaded for,
unless that space has been destroyed since. -/
def Sys.view (s : Sys) : Option (Nat → Option (PdPtr × Bool)) :=
  if s.lastGone then none
  else some (match s.lastAddrspace.bind s.spaces with
    | none => fun _ => none
    | some as => as.view)

structure Tracks (G : Ghost) (s : Sys) : Prop where
  live : ∀ p, G.live p ↔ s.Live p
  page : ∀ a as i p, s.spaces a = some as → as.Has i p →
    G.vaddr p = (ptEntry (as.segments i) p.idx).vaddr ∧ G.dirty p = ((as.segments i).writeable != 0) ∧
      G.img p = segImage (fileData s.vnodes as) (as.segments i) p.idx

def Apart (r r' : Nat × Nat) : Prop := ∀ g ∈ List.range' r.1 r.2, g ∉ List.range' r'.1 r'.2

instance : Std.Symm Apart := ⟨fun _ _ h g hg hg' => h g hg' hg⟩

/-- The runs granted to the kernel heap: their frames are the kernel's, no
two share one, and the first frame says how long the run is, or 1. -/
structure RunsOk (own : Nat → Owner) (c : Cm) (runs : List (Nat × Nat)) : Prop where
  pos : ∀ r ∈ runs, 1 ≤ r.2
  kernel : ∀ r ∈ runs, ∀ g ∈ List.range' r.1 r.2, c.InRange g ∧ own g = .kernel
  head : ∀ r ∈ runs, (c.coreDetails r.1).kern = r.2 ∨ (c.coreDetails r.1).kern = 1
  apart : runs.Pairwise Apart

structure Idle (G : Ghost) (own : Nat → Owner) (runs : List (Nat × Nat)) (v : Vm) : Prop where
  good : ∃ fl, Good G own fl v
  kern : KernOk own v.cm
  calm : ∀ f, own f ≠ .busy
  runs : RunsOk own v.cm runs

structure SysOk (b : Bool) (G : Ghost) (own : Nat → Owner) (s : Sys) : Prop where
  idle : Idle G own s.granted s.vm
  spaces : SpacesOk s.spaces
  tracks : Tracks G s
  view : G.view = if b then s.view else none
  cur : ∀ a, s.curAs = some a → s.lastAddrspace = some a ∧ s.lastGone = false
  last : ∀ a, s.lastAddrspace = some a → s.lastGone = false → s.spaces a ≠ none
  never : s.lastAddrspace = none → s.lastGone = false

variable {b : Bool} {G : Ghost} {own own' : Nat → Owner} {fl : List Nat} {s : Sys} {v v' : Vm} {runs : List (Nat × Nat)}
  {as : AddrSpace} {a i : Nat} {p : PdPtr}

/-! ## Spaces and their pages -/

theorem AddrSpace.Has.hasTable {spaces : Nat → Option AddrSpace} (h : as.Has i p) (ha : spaces a = some as) :
    HasTable spaces a i p.block := by
  obtain ⟨pt, hpt, hb, -⟩ := h.table
  exact ⟨as, pt, ha, ⟨h.lt, h.active, hpt⟩, hb.symm⟩

theorem Sys.live_iff : s.Live p ↔ ∃ a as i, s.spaces a = some as ∧ as.Has i p := by
  simp only [Sys.Live, mem_pages]
  exact ⟨fun ⟨a, as, ha, i, hi⟩ => ⟨a, as, i, ha, hi⟩, fun ⟨a, as, i, ha, hi⟩ => ⟨a, as, ha, i, hi⟩⟩

theorem SpacesOk.has_inj {spaces : Nat → Option AddrSpace} {a' i' : Nat} {as' : AddrSpace} (h : SpacesOk spaces)
    (ha : spaces a = some as) (hp : as.Has i p) (ha' : spaces a' = some as') (hp' : as'.Has i' p) :
    a = a' ∧ i = i' ∧ as = as' := by
  obtain ⟨rfl, rfl⟩ := h.inj _ _ _ _ _ (hp.hasTable ha) (hp'.hasTable ha')
  exact ⟨rfl, rfl, Option.some.inj (ha.symm.trans ha')⟩

theorem Segment.pages_nodup (seg : Segment) : seg.pages.Nodup := by
  unfold Segment.pages
  cases seg.pt with
  | none => exact List.nodup_nil
  | some pt =>
    refine List.nodup_range.map fun j k e => ?_
    exact congrArg PdPtr.idx e

theorem SpacesOk.pages_nodup {spaces : Nat → Option AddrSpace} (h : SpacesOk spaces) (ha : spaces a = some as) :
    as.pages.Nodup := by
  unfold AddrSpace.pages
  refine List.nodup_flatMap.mpr ⟨fun i _ => ?_, List.nodup_range.pairwise_of_forall_ne fun i hi j hj hij => ?_⟩
  · split
    · exact Segment.pages_nodup _
    · exact List.nodup_nil
  · intro p hp hp'
    simp only at hp hp'
    split at hp
    · split at hp'
      · have h1 : as.Has i p := ⟨List.mem_range.mp hi, ‹_›, mem_segment_pages.mp hp⟩
        have h2 : as.Has j p := ⟨List.mem_range.mp hj, ‹_›, mem_segment_pages.mp hp'⟩
        exact hij (h.has_inj ha h1 ha h2).2.1
      · cases hp'
    · cases hp

theorem SysOk.page_live (h : SysOk b G own s) (ha : s.spaces a = some as) (hp : p ∈ as.pages) : G.live p :=
  (h.tracks.live p).mpr ⟨a, as, ha, hp⟩

theorem SysOk.view_vaddr (h : SysOk b G own s) (ha : s.spaces a = some as) {x : Nat} {w : Bool}
    (hv : as.view x = some (p, w)) : G.live p ∧ (s.vm.pds p).vaddr = x := by
  obtain ⟨i, -, hp, hva, -⟩ := view_has (h.spaces.ok a as ha) hv
  have hl := h.page_live ha (mem_pages.mpr ⟨i, hp⟩)
  obtain ⟨fl, hg⟩ := h.idle.good
  exact ⟨hl, by rw [(hg.fixed p hl).1, (h.tracks.page a as i p ha hp).1, hva]⟩

theorem Idle.noHalf (h : Idle G own runs v) : NoHalf own v.cm := fun f hf => h.calm f hf.2.1

theorem Idle.halfAtClock (h : Idle G own runs v) : HalfAtClock own v.cm := fun f hf => absurd hf (h.noHalf f)

/-! ## Granted runs -/

theorem RunsOk.congr {c c' : Cm} (h : RunsOk own c runs) (hr : ∀ g, c'.InRange g ↔ c.InRange g)
    (hk : ∀ r ∈ runs, ∀ g ∈ List.range' r.1 r.2, own' g = .kernel ∧
      (c'.coreDetails g).kern = (c.coreDetails g).kern) : RunsOk own' c' runs where
  pos := h.pos
  kernel r hr' g hg := ⟨(hr g).mpr (h.kernel r hr' g hg).1, (hk r hr' g hg).1⟩
  head r hr' := by
    rw [(hk r hr' r.1 (List.mem_range'_1.mpr ⟨Nat.le_refl _, by have := h.pos r hr'; omega⟩)).2]
    exact h.head r hr'
  apart := h.apart

theorem RunsOk.pagesOnly (h : RunsOk own v.cm runs) (hp : PagesOnly G own v own' v') : RunsOk own' v'.cm runs :=
  h.congr hp.inRange fun r hr g hg => by
    have hkern := (h.kernel r hr g hg).2
    obtain ⟨e, hk, -⟩ := hp.held g (by rw [hkern]; trivial)
    exact ⟨e.trans hkern, hk⟩

theorem RunsOk.grant {f n : Nat} (h : RunsOk own v.cm runs) (hg : Grants own f n v v') (hn : 1 ≤ n) :
    RunsOk (setOwn own (List.range' f n) .kernel) v'.cm (runs ++ [(f, n)]) := by
  -- the new run was free or held pages, the old ones were the kernel's
  have hout : ∀ r ∈ runs, ∀ g ∈ List.range' r.1 r.2, g ∉ List.range' f n := fun r hr g hgr hgf => by
    have hk := (h.kernel r hr g hgr).2
    rcases hg.before g hgf with e | ⟨p, e⟩ <;> rw [hk] at e <;> cases e
  have hold : RunsOk (setOwn own (List.range' f n) .kernel) v'.cm runs := h.congr hg.inRange fun r hr g hgr => by
    rw [setOwn_of_not_mem (hout r hr g hgr), hg.kern, if_neg (hout r hr g hgr)]
    exact ⟨(h.kernel r hr g hgr).2, rfl⟩
  have hf : f ∈ List.range' f n := List.mem_range'_1.mpr ⟨Nat.le_refl _, by omega⟩
  refine ⟨fun r hr => ?_, fun r hr g hgr => ?_, fun r hr => ?_, ?_⟩
  · rcases List.mem_append.mp hr with hr | hr
    · exact h.pos r hr
    · rw [List.mem_singleton.mp hr]; exact hn
  · rcases List.mem_append.mp hr with hr | hr
    · exact hold.kernel r hr g hgr
    · rw [List.mem_singleton.mp hr] at hgr
      have := List.mem_range'_1.mp hgr
      have := hg.first
      have := hg.last
      exact ⟨(hg.inRange g).mpr ⟨by omega, by omega⟩, setOwn_of_mem hgr⟩
  · rcases List.mem_append.mp hr with hr | hr
    · exact hold.head r hr
    · rw [List.mem_singleton.mp hr, hg.kern, if_pos hf]
      split
      · exact Or.inl rfl
      · exact Or.inr rfl
  · refine List.pairwise_append.mpr ⟨h.apart, List.pairwise_singleton .., fun r hr r' hr' => ?_⟩
    rw [List.mem_singleton.mp hr']
    exact hout r hr

theorem RunsOk.unique {c : Cm} {r r' : Nat × Nat} (h : RunsOk own c runs) (hr : r ∈ runs) (hr' : r' ∈ runs)
    {g : Nat} (hg : g ∈ List.range' r.1 r.2) (hg' : g ∈ List.range' r'.1 r'.2) : r = r' := by
  by_contra hne
  exact h.apart.forall hr hr' hne g hg hg'

theorem RunsOk.release {c c' : Cm} {f n k : Nat} (h : RunsOk own c runs) (hf : (f, n) ∈ runs) (hk : k ≤ n)
    (hs : SameFrames c c')
    (hkern : ∀ g, (c'.coreDetails g).kern = if g ∈ List.range' f k then 0 else (c.coreDetails g).kern) :
    RunsOk (setOwn own (List.range' f k) .free) c' (runs.filter fun r => r.1 != f) := by
  have hsub : ∀ r ∈ runs.filter fun r => r.1 != f, r ∈ runs ∧ r.1 ≠ f := fun r hr => by simpa using hr
  have hout : ∀ r ∈ runs.filter fun r => r.1 != f, ∀ g ∈ List.range' r.1 r.2, g ∉ List.range' f k :=
      fun r hr g hgr hgf => by
    have hgf' : g ∈ List.range' f n := List.mem_range'_1.mpr (by have := List.mem_range'_1.mp hgf; omega)
    exact (hsub r hr).2 (congrArg Prod.fst (h.unique (hsub r hr).1 hf hgr hgf'))
  have hold : RunsOk own c (runs.filter fun r => r.1 != f) :=
    ⟨fun r hr => h.pos r (hsub r hr).1, fun r hr => h.kernel r (hsub r hr).1, fun r hr => h.head r (hsub r hr).1,
      h.apart.filter _⟩
  refine hold.congr hs.inRange fun r hr g hgr => ?_
  rw [setOwn_of_not_mem (hout r hr g hgr), hkern, if_neg (hout r hr g hgr)]
  exact ⟨(hold.kernel r hr g hgr).2, rfl⟩

/-! ## How an operation can fail -/

/-- The ways an operation other than fork stops the kernel: every slot of the
swap file holds one of the pages `live`, or there is no memory or no file for
what was asked. -/
def Fair (live : PdPtr → Prop) (c : Crash) : Prop :=
  (c.why = .outOfSwapSpace ∧ SwapFull live c.vm) ∨ c.why = .tooManyKernelPages ∨
    (∃ n, c.why = .noSpaceForKernelPages n) ∨ c.why = .uiomoveSizeReachedZero ∨
    c.why = .assertionFailed .faultHasSegment ∨ c.why = .assertionFailed .vnodeIsOpen

/-- If the kernel stops for want of swap space, each slot holds one of the
pages `live`. -/
def NoSlotLeft (live : PdPtr → Prop) (c : Crash) : Prop := c.why = .outOfSwapSpace → SwapFull live c.vm

theorem NoSlotLeft.of_ne {live : PdPtr → Prop} {c : Crash} (h : c.why ≠ .outOfSwapSpace) : NoSlotLeft live c :=
  fun e => absurd e h

theorem SwapFull.mono {live live' : PdPtr → Prop} (h : SwapFull live v) (hl : ∀ p, live p → live' p) :
    SwapFull live' v := fun n hn => (h n hn).imp fun p hp => ⟨hl p hp.1, hp.2⟩

/-! ## Operations on frames -/

theorem SysOk.setVm (h : SysOk b G own s) (hi : Idle G own' runs v') :
    SysOk b G own' { s with vm := v', granted := runs } :=
  ⟨hi, h.spaces, ⟨h.tracks.live, h.tracks.page⟩, h.view, h.cur, h.last, h.never⟩

theorem PagesOnly.calm (h : PagesOnly G own v own' v') (hc : ∀ f, own f ≠ .busy) (f : Nat) : own' f ≠ .busy := by
  intro e
  have := h.back f (by rw [e]; trivial)
  exact hc f (this ▸ e)

theorem Idle.pagesOnly {G' G'' : Ghost} (h : Idle G own runs v) (hg : ∃ fl, Good G' own' fl v') (hk : KernOk own' v'.cm)
    (hp : PagesOnly G'' own v own' v') : Idle G' own' runs v' :=
  ⟨hg, hk, hp.calm h.calm, h.runs.pagesOnly hp⟩

theorem kframe_eq (f : Nat) : kframe (paddrToKvaddr (f * pageSize)) = f := by
  unfold kframe paddrToKvaddr
  rw [Nat.add_sub_cancel, Nat.mul_div_cancel _ (by decide)]

theorem allocKpages_good {n : Nat} (h : Idle G own runs v) (hn : 1 ≤ n) :
    Post (allocKpages v n)
      (fun r => Idle G (setOwn own (List.range' (kframe r.1) n) .kernel) (runs ++ [(kframe r.1, n)]) r.2 ∧
        Grants own (kframe r.1) n v r.2)
      (fun c => (c.why = .outOfSwapSpace ∧ SwapFull G.live c.vm) ∨ c.why = .noSpaceForKernelPages n) := by
  obtain ⟨fl, hg⟩ := h.good
  obtain ⟨sl, hcore⟩ := hg.core
  unfold allocKpages
  cases hfind : findKframes v.cm n with
  | none =>
    unfold cmRequestKframes
    rw [if_neg (by simp [hcore.cm.init]), hfind]
    exact Or.inr rfl
  | some f =>
    refine (cmRequestKframes_good hg h.kern hn hfind fun g _ => h.noHalf g).mono ?_ fun c hc => Or.inl hc
    rintro ⟨addr, v'⟩ ⟨rfl, hg', hgr⟩
    simp only [kframe_eq]
    refine ⟨⟨hg', hgr.kernOk hn h.kern, fun g e => ?_, h.runs.grant hgr hn⟩, hgr⟩
    by_cases hm : g ∈ List.range' f n
    · rw [setOwn_of_mem hm] at e; cases e
    · rw [setOwn_of_not_mem hm] at e; exact h.calm g e

theorem kalloc_ok {n : Nat} (h : SysOk b G own s) (hn : 1 ≤ n) :
    Post (step s (.kalloc n)) (fun s' => ∃ own', SysOk b G own' s') (Fair s.Live) := by
  refine ((allocKpages_good h.idle hn).mono (fun _ hr => hr) fun c hc => ?_).bind ?_
  · rcases hc with ⟨hw, hf⟩ | hw
    · exact Or.inl ⟨hw, hf.mono fun p hp => (h.tracks.live p).mp hp⟩
    · exact Or.inr (Or.inr (Or.inl ⟨n, hw⟩))
  · rintro ⟨addr, v'⟩ - ⟨hi, -⟩
    exact ⟨_, h.setVm hi⟩

theorem freeKpages_good {f n : Nat} (h : Idle G own runs v) (hf : (f, n) ∈ runs) :
    ∃ k c, freeKpages v (paddrToKvaddr (f * pageSize)) = .ok { v with cm := c } ∧
    (v.cm.coreDetails f).kern = k ∧ k ≤ n ∧
      Idle G (setOwn own (List.range' f k) .free) (runs.filter fun r => r.1 != f) { v with cm := c } ∧
      SameFrames v.cm c ∧
      ∀ g, (c.coreDetails g).kern = if g ∈ List.range' f k then 0 else (v.cm.coreDetails g).kern := by
  obtain ⟨fl, hg⟩ := h.good
  have hn := h.runs.pos _ hf
  have hin := h.runs.kernel _ hf
  have hff : f ∈ List.range' f n := List.mem_range'_1.mpr ⟨Nat.le_refl _, by simp only at hn; omega⟩
  generalize hkf : (v.cm.coreDetails f).kern = k
  have hkn : k ≤ n := by
    have := h.runs.head _ hf
    simp only [hkf] at this hn
    omega
  have hsub : ∀ i ∈ List.range' f k, i ∈ List.range' f n := fun i hi => by
    have := List.mem_range'_1.mp hi
    exact List.mem_range'_1.mpr (by omega)
  obtain ⟨c, he, hg', hk', hs, hkern⟩ := cmReleaseKframes_good hg h.kern hkf (hin f hff).1
    (fun i hi => hin i (hsub i hi)) (hin f hff).2
  refine ⟨k, c, ?_, rfl, hkn, ⟨⟨_, hg'⟩, hk', fun g e => ?_, h.runs.release hf hkn hs hkern⟩, hs, hkern⟩
  · have hpa : paddrToKvaddr (f * pageSize) - mipsKseg0 = f * pageSize := Nat.add_sub_cancel ..
    unfold freeKpages
    simp only [hpa, Nat.mul_mod_left, ne_eq, not_true_eq_false, if_false,
      Nat.mul_div_cancel f (show 0 < pageSize by decide), he, raise_ok]
    rfl
  · by_cases hm : g ∈ List.range' f k
    · rw [setOwn_of_mem hm] at e; cases e
    · rw [setOwn_of_not_mem hm] at e; exact h.calm g e

theorem kfree_ok {f n : Nat} (h : SysOk b G own s) (hf : (f, n) ∈ s.granted) :
    ∃ s' own', step s (.kfree f) = .ok s' ∧ SysOk b G own' s' := by
  obtain ⟨k, c, he, -, -, hi, -⟩ := freeKpages_good h.idle hf
  exact ⟨{ s with vm := { s.vm with cm := c }, granted := s.granted.filter fun r => r.1 != f }, _,
    by simp only [step, he]; rfl, h.setVm hi⟩

theorem kstore_ok {f off : Nat} {byte : UInt8} {r : Nat × Nat} (h : SysOk b G own s) (hr : r ∈ s.granted)
    (hf : f ∈ List.range' r.1 r.2) :
    SysOk b G own { s with vm := { s.vm with mem := setByte s.vm.mem f off byte } } := by
  obtain ⟨fl, hg⟩ := h.idle.good
  obtain ⟨sl, hc⟩ := hg.core
  refine h.setVm ⟨⟨fl, ?_⟩, h.idle.kern, h.idle.calm, h.idle.runs⟩
  refine hg.congr hc.cm (fun _ => Iff.rfl) (fun _ _ => Iff.rfl) (fun _ => rfl) (fun _ _ => SameDetail.refl _)
    (fun g p _ e => ?_) rfl fun m hm => (hg.tlb m hm).congr (fun _ => Iff.rfl) (fun _ _ => Iff.rfl) rfl fun _ _ => rfl
  have hgf : g ≠ f := by
    rintro rfl
    rw [(h.idle.runs.kernel r hr g hf).2] at e; cases e
  exact Function.update_of_ne hgf ..

/-! ## Operations of the running program -/

def Ghost.setAbs (G : Ghost) (p : PdPtr) (x : Option Page) : Ghost := { G with abs := Function.update G.abs p x }

theorem Good.rewrite {f : Nat} (h : Good G own fl v) (data : Page) (x : Option Page) (hr : v.cm.InRange f)
    (hu : own f = .user p) (hd : (v.pds p).dirty = true) (hx : ∀ y, x = some y → SamePage data y) :
    Good (G.setAbs p x) own fl { v with mem := Function.update v.mem f data } := by
  obtain ⟨sl, hc⟩ := h.core
  have hab : ∀ q, q ≠ p → (G.setAbs p x).abs q = G.abs q := fun q hq => Function.update_of_ne hq ..
  refine ⟨⟨sl, hc.cm, ?_, ?_⟩, fun m hm => ?_, ⟨fun q y g hl hy hg e => ?_, fun q y n hl hy hn => ?_,
    fun q y hl hy hcase => ?_⟩, h.fixed⟩
  · exact hc.pg.congr (fun _ => Iff.rfl) (fun _ _ => Iff.rfl) (fun _ => rfl) fun _ _ => SameDetail.refl _
  · exact hc.sw.congr rfl rfl rfl (fun q hq => Or.inr ⟨hq, rfl, rfl⟩) fun q hq => Or.inr ⟨hq, rfl⟩
  · exact (h.tlb m hm).congr (fun _ => Iff.rfl) (fun _ _ => Iff.rfl) rfl fun _ _ => rfl
  · rcases eq_or_ne g f with rfl | hgf
    · obtain rfl : p = q := Owner.user.inj (hu.symm.trans e)
      simp only [Ghost.setAbs, Function.update_self] at hy ⊢
      exact hx y hy
    · have hqp : q ≠ p := by rintro rfl; exact hgf (hc.pg.inj hg hr e hu)
      simp only [Function.update_of_ne hgf]
      exact h.data.resident q y g hl (hab q hqp ▸ hy) hg e
  · have hqp : q ≠ p := by
      rintro rfl
      rw [show (v.pds q).sfn = -1 from hc.user_sfn hr hu] at hn; omega
    exact h.data.swapped q y n hl (hab q hqp ▸ hy) hn
  · rcases eq_or_ne q p with rfl | hqp
    · rcases hcase with hf | ⟨hno, -⟩
      · rw [hd] at hf; cases hf
      · exact absurd hu (hno f hr)
    · exact h.data.file q y hl (hab q hqp ▸ hy) hcase

def stored (x : Option Page) (off : Nat) (byte : UInt8) : Option Page := x.map fun x => Function.update x off byte

theorem SamePage.update {x y : Page} (h : SamePage x y) (off : Nat) (byte : UInt8) :
    SamePage (Function.update x off byte) (Function.update y off byte) := by
  intro o ho
  simp only [Function.update_apply]
  split
  · rfl
  · exact h o ho

theorem Sys.cur_some (h : s.cur = some as) : ∃ a, s.curAs = some a ∧ s.spaces a = some as := by
  unfold Sys.cur at h
  exact Option.bind_eq_some_iff.mp h

theorem SysOk.view_cur (h : SysOk true G own s) (hc : s.cur = some as) : G.view = some as.view := by
  obtain ⟨a, hca, ha⟩ := Sys.cur_some hc
  obtain ⟨hla, hgone⟩ := h.cur a hca
  have hb : s.lastAddrspace.bind s.spaces = some as := by rw [hla]; exact ha
  rw [h.view]
  simp only [Sys.view, hgone, hb, if_true, Bool.false_eq_true, if_false]

theorem SysOk.view_of (h : SysOk b G own s) (hc : s.cur = some as) : ∀ m, G.view = some m → b = true ∧ m = as.view := by
  intro m hm
  cases b with
  | false => rw [h.view] at hm; cases hm
  | true => exact ⟨rfl, Option.some.inj (hm.symm.trans (h.view_cur hc))⟩

theorem tlbLookup_some {t : Tlb} {x : Nat} {e : TlbEntry} (h : tlbLookup t x = some e) :
    ∃ k < numTlb, t.entries k = e ∧ e.valid = true ∧ e.vpage = x := by
  unfold tlbLookup at h
  obtain ⟨k, hk, rfl⟩ := Option.map_eq_some_iff.mp h
  have hp := List.find?_some hk
  simp only [Bool.and_eq_true, beq_iff_eq] at hp
  exact ⟨k, List.mem_range.mp (List.mem_of_find?_eq_some hk), rfl, hp.2, hp.1⟩

def AddrSpace.storeAt (as : AddrSpace) (abs : PdPtr → Option Page) (addr : Nat) (byte : UInt8) : PdPtr → Option Page :=
  match as.view (addr &&& pageFrame) with
  | none => abs
  | some (q, _) => Function.update abs q (stored (abs q) (addr % pageSize) byte)

theorem AddrSpace.storeAt_none {abs : PdPtr → Option Page} (h : ∀ r, abs r = none) (addr : Nat) (byte : UInt8) :
    as.storeAt abs addr byte = abs := by
  unfold AddrSpace.storeAt
  cases as.view (addr &&& pageFrame) with
  | none => rfl
  | some q => simp [stored, h]

theorem Good.setMem (h : Good G own fl v) (hn : ∀ r, G.abs r = none) (mem : Nat → Page) :
    Good G own fl { v with mem := mem } := by
  obtain ⟨sl, hc⟩ := h.core
  have hno : ∀ {q x}, G.abs q ≠ some x := fun e => by rw [hn] at e; cases e
  refine ⟨⟨sl, hc.cm, ?_, ?_⟩, fun m hm => ?_, ⟨fun _ _ _ _ e => absurd e hno, fun _ _ _ _ e => absurd e hno,
    fun _ _ _ e => absurd e hno⟩, h.fixed⟩
  · exact hc.pg.congr (fun _ => Iff.rfl) (fun _ _ => Iff.rfl) (fun _ => rfl) fun _ _ => SameDetail.refl _
  · exact hc.sw.congr rfl rfl rfl (fun q hq => Or.inr ⟨hq, rfl, rfl⟩) fun q hq => Or.inr ⟨hq, rfl⟩
  · exact (h.tlb m hm).congr (fun _ => Iff.rfl) (fun _ _ => Iff.rfl) rfl fun _ _ => rfl

theorem store_ok {addr : Nat} {e : TlbEntry} (byte : UInt8) (h : SysOk b G own s) (hc : s.cur = some as)
    (he : tlbLookup s.vm.tlb (addr &&& pageFrame) = some e) (hd : e.dirty = true)
    (hb : b = false → ∀ r, G.abs r = none) :
    ∃ G', SysOk b G' own
      { s with vm := { s.vm with mem := setByte s.vm.mem (e.ppage / pageSize) (addr % pageSize) byte } } ∧
      G'.abs = as.storeAt G.abs addr byte := by
  obtain ⟨fl, hg⟩ := h.idle.good
  obtain ⟨a, -, ha⟩ := Sys.cur_some hc
  cases b with
  | false =>
    -- nothing is known of the bytes, and the frame may be any
    exact ⟨G, h.setVm ⟨⟨fl, hg.setMem (hb rfl) _⟩, h.idle.kern, h.idle.calm, h.idle.runs⟩,
      (AddrSpace.storeAt_none (hb rfl) addr byte).symm⟩
  | true =>
    obtain ⟨k, hk, rfl, hval, hpage⟩ := tlbLookup_some he
    obtain ⟨-, q, w, f, hq, hr, hu, hpp, hw⟩ := (hg.tlb _ (h.view_cur hc)).entry k hk hval
    rw [hpage] at hq
    obtain ⟨sl, hcore⟩ := hg.core
    obtain ⟨i, -, hp, -, hwi⟩ := view_has (h.spaces.ok a as ha) hq
    have hl := h.page_live ha (mem_pages.mpr ⟨i, hp⟩)
    have hdirty : (s.vm.pds q).dirty = true := by
      rw [(hg.fixed q hl).2, (h.tracks.page a as i q ha hp).2.1, ← hwi]
      exact hw hd
    have hmem : ∀ y, stored (G.abs q) (addr % pageSize) byte = some y →
        SamePage (Function.update (s.vm.mem f) (addr % pageSize) byte) y := by
      intro y hy
      obtain ⟨z, hz, rfl⟩ := Option.map_eq_some_iff.mp hy
      exact (hg.data.resident q z f hl hz hr hu).update _ byte
    rw [hpp, Nat.mul_div_cancel f (by decide)]
    refine ⟨G.setAbs q (stored (G.abs q) (addr % pageSize) byte), ⟨⟨⟨fl, hg.rewrite _ _ hr hu hdirty hmem⟩, h.idle.kern,
      h.idle.calm, h.idle.runs⟩, h.spaces, ⟨h.tracks.live, h.tracks.page⟩, h.view, h.cur, h.last, h.never⟩, ?_⟩
    simp only [AddrSpace.storeAt, hq, Ghost.setAbs]

def LoadSafe (G : Ghost) (v : Vm) (as : AddrSpace) (file : List UInt8) (x resid : Nat) : Prop :=
  ∀ i q w, asGetSegment as x = some i → as.view x = some (q, w) → G.abs q ≠ none → (v.pds q).pfn = -1 →
    (v.pds q).sfn = -1 → ∀ frame e data,
    loadSegmentPage file x (as.segments i) frame resid = .ok (e, data) → SamePage data (G.img q)

/-- A load at address `x` gives what the file says: the file holds the
segment, and a page past its bytes finds a `uio_resid` that lets the zero
fill reach its end. -/
def LoadGood (as : AddrSpace) (file : List UInt8) (x resid : Nat) : Prop :=
  ∀ i, asGetSegment as x = some i →
    (x - (as.segments i).vbase < (as.segments i).pFilesz → Readable file (as.segments i)) ∧
      ((as.segments i).pFilesz ≤ x - (as.segments i).vbase → zeroed (u32 (resid + pageSize)) pageSize = pageSize)

theorem LoadGood.load {file : List UInt8} {x resid : Nat} (hs : SpaceOk as) (hx : x % pageSize = 0)
    (h : LoadGood as file x resid) (hg : asGetSegment as x = some i) (frame : Page) :
    ∃ data, loadSegmentPage file x (as.segments i) frame resid = .ok (none, data) ∧
      SamePage data (segImage file (as.segments i) (u32 (x + 2 ^ 32 - (as.segments i).vbase) / pageSize)) := by
  obtain ⟨hi, ha, hlo, hhi⟩ := asGetSegment_some hg
  have hok : SegOk (as.segments i) := (hs i hi).resolve_left (by rw [ha]; decide)
  have hlt : x < 2 ^ 32 := Nat.lt_trans hhi (u32_lt _)
  have hb := hok.base
  rw [u32_sub hlo hlt]
  obtain ⟨j, hj⟩ : ∃ j, x - (as.segments i).vbase = pageSize * j := ⟨(x - (as.segments i).vbase) / pageSize, by
    unfold pageSize at *; omega⟩
  obtain ⟨hfile, hbss⟩ := h i hg
  rw [hj] at hfile hbss ⊢
  rw [Nat.mul_div_cancel_left j (by decide), show x = (as.segments i).vbase + pageSize * j by omega]
  rcases Nat.lt_or_ge (pageSize * j) (as.segments i).pFilesz with hlt' | hge
  · exact load_file (hfile hlt') hlt' frame resid
  · refine ⟨_, load_bss (by omega) hge file frame resid, fun off ho => ?_⟩
    rw [hbss hge]
    simp only [zeroFilled, segImage, Nat.zero_le, Nat.zero_add, ho, and_self, if_true]
    rw [if_neg (by omega)]

theorem LoadGood.same {file : List UInt8} {x resid : Nat} {w : Bool} {frame data : Page} {e : Option Errno}
    (h : LoadGood as file x resid) (hs : SpaceOk as) (hx : x % pageSize = 0) (hi : asGetSegment as x = some i)
    (hp : as.view x = some (p, w)) (he : loadSegmentPage file x (as.segments i) frame resid = .ok (e, data)) :
    SamePage data (segImage file (as.segments i) p.idx) := by
  obtain ⟨data', he', hsame⟩ := h.load hs hx hi frame
  obtain ⟨-, rfl⟩ : e = none ∧ data = data' := by simpa using he.symm.trans he'
  obtain ⟨-, -, k, pt, hk, -, rfl, -⟩ := view_eq_some.mp hp
  obtain rfl := Option.some.inj (hi.symm.trans hk)
  exact hsame

theorem SysOk.loadSafe {x resid : Nat} (h : SysOk b G own s) (ha : s.spaces a = some as) (hx : x % pageSize = 0)
    (hl : ∀ q w, as.view x = some (q, w) → G.abs q ≠ none → (s.vm.pds q).pfn = -1 → (s.vm.pds q).sfn = -1 →
      LoadGood as (fileData s.vnodes as) x resid) : LoadSafe G s.vm as (fileData s.vnodes as) x resid := by
  intro i q w hi hq habs hpf hsf frame e data he
  have hs := h.spaces.ok a as ha
  obtain ⟨j, hj, hp, -⟩ := view_has hs hq
  obtain rfl := Option.some.inj (hi.symm.trans hj)
  rw [(h.tracks.page a as i q ha hp).2.2]
  exact (hl q w hq habs hpf hsf).same hs hx hi hq he

def TlbMiss (t : Tlb) (x : Nat) : Prop := ∀ k < numTlb, (t.entries k).valid = true → (t.entries k).vpage ≠ x

instance (t : Tlb) (x : Nat) : Decidable (TlbMiss t x) :=
  inferInstanceAs (Decidable (∀ k < numTlb, (t.entries k).valid = true → (t.entries k).vpage ≠ x))

theorem SysOk.vmFault {ft : FaultType} {addr resid : Nat} (h : SysOk b G own s) (hc : s.cur = some as)
    (hmiss : b = true → TlbMiss s.vm.tlb (addr &&& pageFrame))
    (hload : LoadSafe G s.vm as (fileData s.vnodes as) (addr &&& pageFrame) resid) :
    Post (Os161.vmFault s.vm (some as) (fileData s.vnodes as) ft addr resid)
      (fun r => (∃ own', SysOk b G own' { s with vm := r.2 }) ∧ (r.1 = .handled → ∃ q w,
        as.view (addr &&& pageFrame) = some (q, w) ∧ PageIsIn G own s.vm (addr &&& pageFrame) q r.2))
      (Fair s.Live) := by
  obtain ⟨fl, hg⟩ := h.idle.good
  obtain ⟨a, -, ha⟩ := Sys.cur_some hc
  refine (vmFault_good _ hg h.idle.kern h.idle.halfAtClock (h.spaces.ok a as ha) (fun q hq => h.page_live ha hq)
    (fun m hm => ?_) hload).mono ?_ fun c hc => ?_
  · obtain ⟨hb, rfl⟩ := h.view_of hc m hm
    exact ⟨rfl, hmiss hb⟩
  · rintro ⟨r, v'⟩ (⟨rfl, hf⟩ | ⟨rfl, q, w, hq, hin⟩)
    · exact ⟨⟨own, h⟩, fun hr => absurd (hr ▸ hf) faultSegment_ne_handled⟩
    · refine ⟨?_, fun _ => ⟨q, w, hq, hin⟩⟩
      obtain ⟨own', fl', -, hg', hk', hpo, -⟩ := hin
      exact ⟨own', h.setVm (h.idle.pagesOnly ⟨fl', hg'⟩ hk' hpo)⟩
  · rcases hc with ⟨hw, -⟩ | ⟨i, q, w, -, -, -, (⟨hw, hf⟩ | ⟨hw, -⟩ | ⟨-, -, f, hf⟩) | ⟨-, -, _, hw⟩⟩
    · exact Or.inr (Or.inr (Or.inr (Or.inr (Or.inl hw))))
    · exact Or.inl ⟨hw, hf.mono fun p hp => (h.tracks.live p).mp hp⟩
    · exact Or.inr (Or.inl hw)
    · exact absurd hf (h.idle.noHalf f)
    · exact Or.inr (Or.inr (Or.inr (Or.inl (loadSegmentPage_error hw))))

theorem fault_ok {ft : FaultType} {addr resid : Nat} (h : SysOk b G own s)
    (hmiss : b = true → TlbMiss s.vm.tlb (addr &&& pageFrame))
    (hload : ∀ as, s.cur = some as → LoadSafe G s.vm as (fileData s.vnodes as) (addr &&& pageFrame) resid) :
    Post (step s (.fault ft addr resid)) (fun s' => ∃ own', SysOk b G own' s') (Fair s.Live) := by
  unfold step
  cases hc : s.cur with
  | none => exact ⟨own, h⟩
  | some as => exact (h.vmFault hc hmiss (hload as hc)).bind fun r _ hr => hr.1

/-! ## Activation -/

theorem Good.setTlb (h : Good G own fl v) (tlb : Tlb) (view : Option (Nat → Option (PdPtr × Bool)))
    (ht : ∀ m, view = some m → TlbOk G.live m own { v with tlb := tlb }) :
    Good { G with view := view } own fl { v with tlb := tlb } := by
  obtain ⟨sl, hc⟩ := h.core
  refine ⟨⟨sl, hc.cm, ?_, ?_⟩, ht, ?_, h.fixed⟩
  · exact hc.pg.congr (fun _ => Iff.rfl) (fun _ _ => Iff.rfl) (fun _ => rfl) fun _ _ => SameDetail.refl _
  · exact hc.sw.congr rfl rfl rfl (fun q hq => Or.inr ⟨hq, rfl, rfl⟩) fun q hq => Or.inr ⟨hq, rfl⟩
  · exact ⟨h.data.resident, h.data.swapped, h.data.file⟩

theorem TlbOk.empty {live : PdPtr → Prop} {m : Nat → Option (PdPtr × Bool)}
    (hinv : ∀ k < numTlb, (v.tlb.entries k).valid = false ∧ userTop ≤ (v.tlb.entries k).vpage)
    (hview : ∀ x q w, m x = some (q, w) → live q ∧ (v.pds q).vaddr = x) : TlbOk live m own v := by
  refine ⟨fun k hk hv => ?_, fun j hj _ _ hv => ?_, fun k hk _ => (hinv k hk).2, hview⟩
  · rw [(hinv k hk).1] at hv; cases hv
  · rw [(hinv j hj).1] at hv; cases hv

theorem tlbContextSwitch_empty (t : Tlb) : ∀ k < numTlb, ((tlbContextSwitch t).entries k).valid = false ∧
    userTop ≤ ((tlbContextSwitch t).entries k).vpage := by
  intro k hk
  rw [tlbContextSwitch_entries t hk]
  refine ⟨rfl, ?_⟩
  simp only [tlbInvalid, userTop, mipsKseg0]
  omega

theorem activate_ok (h : SysOk b G own s) (ha : s.spaces a = some as)
    (hsafe : b = true → s.lastAddrspace = some a → s.lastGone = false) :
    SysOk b { G with view := if b then some as.view else none } own { asActivate s a with curAs := some a } := by
  obtain ⟨fl, hg⟩ := h.idle.good
  have hview : ∀ x q w, as.view x = some (q, w) → G.live q ∧ (s.vm.pds q).vaddr = x := fun x q w hx =>
    h.view_vaddr ha hx
  have hnew : Sys.view { asActivate s a with curAs := some a } = some as.view := by
    have : (some a).bind s.spaces = some as := ha
    simp [Sys.view, asActivate, this]
  refine ⟨⟨⟨fl, ?_⟩, h.idle.kern, h.idle.calm, h.idle.runs⟩, h.spaces, ⟨h.tracks.live, h.tracks.page⟩, ?_,
    fun a' e => ?_, fun a' e _ => ?_, fun e => (by cases e)⟩
  · refine hg.setTlb _ _ fun m hm => ?_
    cases b with
    | false => cases hm
    | true =>
      obtain rfl : as.view = m := Option.some.inj hm
      cases hl : s.lastAddrspace with
      | none =>
        -- nothing was ever activated, and nothing mapped
        have hold : G.view = some fun _ => none := by simp [h.view, Sys.view, h.never hl, hl]
        obtain ⟨h1, -, h3, -⟩ := hg.tlb _ hold
        refine TlbOk.empty (fun k hk => ?_) hview
        have : (s.vm.tlb.entries k).valid = false := by
          cases hv : (s.vm.tlb.entries k).valid with
          | false => rfl
          | true => obtain ⟨-, _, _, _, e, -⟩ := h1 k hk hv; cases e
        exact ⟨this, h3 k hk this⟩
      | some last =>
        simp only
        split
        · subst last
          have hold : G.view = some as.view := by
            have : (some a).bind s.spaces = some as := ha
            simp [h.view, Sys.view, hsafe rfl hl, hl, this]
          exact hg.tlb _ hold
        · exact TlbOk.empty (tlbContextSwitch_empty _) hview
  · rw [hnew]
  · obtain rfl : a = a' := Option.some.inj e
    exact ⟨rfl, rfl⟩
  · obtain rfl : a = a' := Option.some.inj e
    show s.spaces a ≠ none
    rw [ha]; simp

/-! ## A new space -/

theorem SysOk.addSpace {G' : Ghost} {as' : AddrSpace} {vnodes : Nat → Vnode} (h : SysOk b G own s)
    (hfree : s.spaces a = none) (hok : SpaceOk as') (hfile : as'.file ≠ none)
    (hstack : (as'.segments (asNumSeg - 1)).active ≠ 0)
    (hfresh : ∀ i pt, as'.Table i pt → s.FreshBlock pt.block)
    (hinj : ∀ i j pt pt', as'.Table i pt → as'.Table j pt' → pt.block = pt'.block → i = j)
    (hadds : G.Adds G' (fun q => q ∈ as'.pages))
    (hnew : ∀ i p, as'.Has i p → G'.vaddr p = (ptEntry (as'.segments i) p.idx).vaddr ∧
      G'.dirty p = ((as'.segments i).writeable != 0) ∧
      G'.img p = segImage (fileData s.vnodes as') (as'.segments i) p.idx)
    (hdata : ∀ as, fileData vnodes as = fileData s.vnodes as) (hi : Idle G' own' runs v') :
    SysOk b G' own'
      { s with vm := v', vnodes := vnodes, spaces := Function.update s.spaces a (some as'), granted := runs } := by
  have look : ∀ x as, Function.update s.spaces a (some as') x = some as → (x = a ∧ as = as') ∨
      (x ≠ a ∧ s.spaces x = some as) := by
    intro x as e
    rcases eq_or_ne x a with rfl | hx
    · rw [Function.update_self] at e
      exact Or.inl ⟨rfl, (Option.some.inj e).symm⟩
    · rw [Function.update_of_ne hx] at e
      exact Or.inr ⟨hx, e⟩
  have keep : ∀ x as, s.spaces x = some as → Function.update s.spaces a (some as') x = some as := fun x as e => by
    rw [Function.update_of_ne (by rintro rfl; rw [hfree] at e; cases e)]
    exact e
  refine ⟨hi, ⟨fun x as e => ?_, fun x as e => ?_, fun x as e => ?_, ?_⟩,
    ⟨fun q => ?_, fun x as i q e hq => ?_⟩, ?_, h.cur, fun x e hgone => ?_, h.never⟩
  · rcases look x as e with ⟨-, rfl⟩ | ⟨-, e⟩
    · exact hok
    · exact h.spaces.ok x as e
  · rcases look x as e with ⟨-, rfl⟩ | ⟨-, e⟩
    · exact hfile
    · exact h.spaces.file x as e
  · rcases look x as e with ⟨-, rfl⟩ | ⟨-, e⟩
    · exact hstack
    · exact h.spaces.stack x as e
  · rintro x y i j block ⟨as₁, pt, e₁, ht, rfl⟩ ⟨as₂, pt', e₂, ht', hb⟩
    rcases look x as₁ e₁ with ⟨rfl, rfl⟩ | ⟨-, o₁⟩ <;> rcases look y as₂ e₂ with ⟨rfl, rfl⟩ | ⟨-, o₂⟩
    · exact ⟨rfl, hinj i j pt pt' ht ht' hb.symm⟩
    · exact absurd ⟨as₂, pt', o₂, ht', hb⟩ (hfresh i pt ht y j)
    · exact absurd ⟨as₁, pt, o₁, ht, hb.symm⟩ (hfresh j pt' ht' x i)
    · exact h.spaces.inj x y i j _ ⟨as₁, pt, o₁, ht, rfl⟩ ⟨as₂, pt', o₂, ht', hb⟩
  · rw [hadds.live q, h.tracks.live q]
    constructor
    · rintro (⟨x, as, e, hq⟩ | hq)
      · exact ⟨x, as, keep x as e, hq⟩
      · exact ⟨a, as', Function.update_self .., hq⟩
    · rintro ⟨x, as, e, hq⟩
      rcases look x as e with ⟨-, rfl⟩ | ⟨-, e⟩
      · exact Or.inr hq
      · exact Or.inl ⟨x, as, e, hq⟩
  · simp only [hdata]
    rcases look x as e with ⟨-, rfl⟩ | ⟨-, e⟩
    · exact hnew i q hq
    · have hl := h.page_live e (mem_pages.mpr ⟨i, hq⟩)
      rw [hadds.vaddr q hl, hadds.dirty q hl, hadds.img q hl]
      exact h.tracks.page x as i q e hq
  · rw [hadds.view, h.view]
    -- the new space is not the one the TLB was loaded for, which exists or is gone
    unfold Sys.view
    cases hgone : s.lastGone with
    | true => rfl
    | false =>
      cases hl : s.lastAddrspace with
      | none => rfl
      | some x =>
        have hx : x ≠ a := by rintro rfl; exact h.last x hl hgone hfree
        simp [Function.update_of_ne hx]
  · rcases eq_or_ne x a with rfl | hx
    · simp
    · simp only [Function.update_of_ne hx]
      exact h.last x e hgone

/-! ## Teardown -/

theorem SpacesOk.view_apart {spaces : Nat → Option AddrSpace} {a' : Nat} {as' : AddrSpace} (h : SpacesOk spaces)
    (ha : spaces a = some as) (ha' : spaces a' = some as') (hne : a ≠ a') {x : Nat} {w : Bool}
    (hx : as.view x = some (p, w)) : p ∉ as'.pages := by
  obtain ⟨i, -, hp, -⟩ := view_has (h.ok a as ha) hx
  intro hp'
  obtain ⟨j, hj⟩ := mem_pages.mp hp'
  exact hne (h.has_inj ha hp ha' hj).1

theorem SpacesOk.remove {spaces : Nat → Option AddrSpace} (h : SpacesOk spaces) (a : Nat) :
    SpacesOk (Function.update spaces a none) := by
  have hold : ∀ x as, Function.update spaces a none x = some as → x ≠ a ∧ spaces x = some as := by
    intro x as e
    rcases eq_or_ne x a with rfl | hx
    · rw [Function.update_self] at e; cases e
    · rw [Function.update_of_ne hx] at e
      exact ⟨hx, e⟩
  refine ⟨fun x as e => h.ok x as (hold x as e).2, fun x as e => h.file x as (hold x as e).2,
    fun x as e => h.stack x as (hold x as e).2, ?_⟩
  rintro x y i j block ⟨as, pt, hx, hrest⟩ ⟨as', pt', hy, hrest'⟩
  exact h.inj x y i j block ⟨as, pt, (hold x as hx).2, hrest⟩ ⟨as', pt', (hold y as' hy).2, hrest'⟩

theorem fileData_update {vnodes : Nat → Vnode} {v : Nat} {d : Vnode} (hd : d.data = (vnodes v).data) (as : AddrSpace) :
    fileData (Function.update vnodes v d) as = fileData vnodes as := by
  unfold fileData
  cases as.file with
  | none => rfl
  | some w =>
    simp only [Function.update_apply]
    split
    · subst w; exact hd
    · rfl

theorem destroy_ok (h : SysOk b G own s) (ha : s.spaces a = some as) :
    Post (asDestroy s a as) (fun s' => ∃ G' own', SysOk b G' own' s' ∧ G'.abs = G.abs)
      (fun c => c.why = .assertionFailed .vnodeIsOpen) := by
  obtain ⟨fl, hg⟩ := h.idle.good
  have hnd := h.spaces.pages_nodup ha
  -- the view afterwards
  let view := if s.lastAddrspace = some a then none else G.view
  have hgv : Good { G with view := view } own fl s.vm := by
    by_cases hl : s.lastAddrspace = some a
    · simp only [view, if_pos hl]; exact hg.dropView
    · simp only [view, if_neg hl]; exact hg
  have hapart : ∀ m, view = some m → ∀ x q w, m x = some (q, w) → q ∉ as.pages := by
    intro m hm x q w hx
    by_cases hl : s.lastAddrspace = some a
    · simp only [view, if_pos hl] at hm; cases hm
    · simp only [view, if_neg hl] at hm
      rw [h.view] at hm
      split at hm
      · unfold Sys.view at hm
        split at hm
        · cases hm
        · obtain rfl := Option.some.inj hm
          cases hb : s.lastAddrspace.bind s.spaces with
          | none => rw [hb] at hx; cases hx
          | some as' =>
            rw [hb] at hx
            obtain ⟨a', hl', ha'⟩ := Option.bind_eq_some_iff.mp hb
            exact h.spaces.view_apart ha' ha (by rintro rfl; exact hl hl') hx
      · cases hm
  obtain ⟨v', own', he, hg', hk', hpo, -⟩ := freePages_good hgv h.idle.kern hnd (fun q hq => h.page_live ha hq) hapart
  have hlive : ∀ q, (G.live q ∧ q ∉ as.pages) ↔ ∃ a' as', Function.update s.spaces a none a' = some as' ∧
      q ∈ as'.pages := by
    intro q
    rw [h.tracks.live q]
    constructor
    · rintro ⟨⟨a', as', ha', hq⟩, hn⟩
      refine ⟨a', as', ?_, hq⟩
      rwa [Function.update_of_ne]
      rintro rfl
      exact hn (Option.some.inj (ha.symm.trans ha') ▸ hq)
    · rintro ⟨a', as', ha', hq⟩
      have hne : a' ≠ a := by rintro rfl; rw [Function.update_self] at ha'; cases ha'
      rw [Function.update_of_ne hne] at ha'
      refine ⟨⟨a', as', ha', hq⟩, fun hq' => hne ?_⟩
      obtain ⟨i, hi⟩ := mem_pages.mp hq
      obtain ⟨j, hj⟩ := mem_pages.mp hq'
      exact (h.spaces.has_inj ha' hi ha hj).1
  obtain ⟨f, hf⟩ : ∃ f, as.file = some f := Option.ne_none_iff_exists'.mp (h.spaces.file a as ha)
  have hfree : asFreeSegments s.vm as = .ok v' := he
  unfold asDestroy
  rw [hfree, ok_bind, hf]
  simp only
  by_cases hopen : (s.vnodes f).opencount = 0
  · rw [if_pos hopen]
    exact rfl
  · rw [if_neg hopen, ok_bind]
    refine ⟨({ G with view := view } : Ghost).drop as.pages, own', ⟨⟨hg', hk', hpo.calm h.idle.calm,
      h.idle.runs.pagesOnly hpo⟩, h.spaces.remove a, ⟨hlive, ?_⟩, ?_, ?_, ?_, ?_⟩, rfl⟩
    · intro a' as' i q ha' hq
      have hne : a' ≠ a := by rintro rfl; simp at ha'
      simp only [Function.update_of_ne hne] at ha'
      have := h.tracks.page a' as' i q ha' hq
      simpa [fileData_update, Ghost.drop] using this
    · show view = _
      by_cases hl : s.lastAddrspace = some a
      · simp [view, hl, Sys.view]
      · simp only [view, if_neg hl, h.view, Sys.view, beq_eq_false_iff_ne.mpr hl, Bool.or_false]
        have : s.lastAddrspace.bind (Function.update s.spaces a none) = s.lastAddrspace.bind s.spaces := by
          cases hla : s.lastAddrspace with
          | none => rfl
          | some a' =>
            have hne : a' ≠ a := by rintro rfl; exact hl hla
            simp [Function.update_of_ne hne]
        rw [this]
    · intro a' e
      simp only at e
      split at e
      · cases e
      · obtain ⟨h1, h2⟩ := h.cur a' e
        refine ⟨h1, ?_⟩
        have hne : s.lastAddrspace ≠ some a := by
          rw [h1]; rintro e'
          obtain rfl := Option.some.inj e'
          contradiction
        simp [h2, hne]
    · intro a' e hgone
      simp only [Bool.or_eq_false_iff, beq_eq_false_iff_ne] at hgone
      simp only at e
      have hne : a' ≠ a := by rintro rfl; exact hgone.2 e
      simp only [Function.update_of_ne hne]
      exact h.last a' e hgone.1
    · intro e
      simp only at e
      simp [e, h.never e]

end Os161
