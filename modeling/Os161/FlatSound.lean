import Os161.CoherenceSound

/-!
# Paging as a flat memory

The system runs along with a memory of one array of bytes for each page
(`track`). In runs in which loads go well, what the page table leads to is
what that memory holds.
-/

namespace Os161

open Linked Outcome

abbrev Traced := Sys × (PdPtr → Option Page)

def tracedStep : Traced → Op → Except Crash Traced := follow step fun s op s' abs => track true s s' op abs

def Sys.Known (s : Sys) (abs : PdPtr → Option Page) : Prop :=
  ∀ a as x q w, s.spaces a = some as → as.view x = some (q, w) → abs q ≠ none

variable {m : Boot} {s s' : Sys} {op : Op} {G : Ghost} {own : Nat → Owner} {as : AddrSpace} {q : PdPtr}
  {w : Bool} {abs : PdPtr → Option Page}

theorem Known.step (h : s.Known abs) (he : step s op = .ok s') (ht : op.target = none) {abs' : PdPtr → Option Page}
    (ha : ∀ q, abs q ≠ none → abs' q ≠ none) : s'.Known abs' := fun a as x q w hs hq =>
  ha q (h a as x q w (step_spaces he hs (by rw [ht]; nofun)) hq)

theorem Known.create {a vnode stack : Nat} {last : Segment} {phdrs : List Phdr} {blocks : List Nat}
    (hs : SpacesOk s'.spaces) (h : s.Known abs) (he : Os161.step s (.create a last vnode phdrs blocks stack) = .ok s') :
    s'.Known (track true s s' (.create a last vnode phdrs blocks stack) abs) := by
  intro a' as x q w ha' hq
  obtain ⟨i, -, hi, -⟩ := view_has (hs.ok a' as ha') hq
  simp only [track]
  rcases eq_or_ne a' a with rfl | hne
  · simp only [ha', if_pos (mem_pages.mpr ⟨i, hi⟩)]
    simp
  · have hold := h a' as x q w (step_spaces he ha' fun e => hne (Option.some.inj e).symm) hq
    cases s'.spaces a with
    | none => exact hold
    | some as' =>
      simp only
      split
      · simp
      · exact hold

theorem Known.copy {old : AddrSpace} {child : Nat} {args : CopyArgs} (hok : SysOk true G own s) (h : s.Known abs)
    (hc : s.cur = some old) (hargs : args.Ok s)
    (hs' : s'.spaces = Function.update s.spaces child (some (childSpace old args))) :
    s'.Known (track true s s' (.copy child args) abs) := by
  intro a' as x p w ha' hp
  obtain ⟨a, -, ha⟩ := Sys.cur_some hc
  have hso := hok.spaces.ok a old ha
  have hstack := hok.spaces.stack a old ha
  simp only [track, hc]
  rw [hs', Function.update_apply] at ha'
  split at ha'
  · -- a page of the child holds what the old page at its address holds
    obtain rfl := Option.some.inj ha'
    obtain ⟨q, i, hq, hi, rfl⟩ := (childSpace_view hso hstack).mp hp
    obtain ⟨j, hj, hhas, -⟩ := view_has hso hq
    obtain rfl := Option.some.inj (hi.symm.trans hj)
    have hm : (q, { block := args.blocks i, idx := q.idx }) ∈ copyPairs old args (List.range asNumSeg) :=
      (mem_copyPairs hso fun i => List.mem_range.mp).mpr ⟨i, List.mem_range.mpr hhas.lt, hhas, rfl⟩
    rw [(sourceOf_some hso hargs).mpr hm]
    simp only [copied, (hok.view_vaddr ha hq).2, hq, Option.bind_some, ite_self]
    exact h a old x q w ha hq
  · -- other spaces have no page in the child's blocks
    obtain ⟨j, -, hhas, -⟩ := view_has (hok.spaces.ok a' as ha') hp
    cases hsrc : sourceOf old args p with
    | none => exact h a' as x p w ha' hp
    | some q =>
      obtain ⟨i, -, hi, rfl⟩ := (mem_copyPairs hso fun i => List.mem_range.mp).mp ((sourceOf_some hso hargs).mp hsrc)
      exact absurd (hhas.hasTable ha') (hargs.fresh i hi.lt a' j)

theorem AddrSpace.storeAt_known (h : abs q ≠ none) (addr : Nat) (byte : UInt8) : as.storeAt abs addr byte q ≠ none := by
  unfold AddrSpace.storeAt
  cases as.view (addr &&& pageFrame) with
  | none => exact h
  | some r =>
    simp only [Function.update_apply]
    split
    · subst q
      rw [stored, ne_eq, Option.map_eq_none_iff]
      exact h
    · exact h

def TracedOk (x : Traced) : Prop :=
  (∃ G own, SysOk true G own x.1 ∧ G.abs = x.2) ∧ x.1.Known x.2

def Op.Well (x : Traced) (op : Op) : Prop := op.Allowed x.1 ∧ op.LoadsWell x.1 ∧ op.Flushes x.1

theorem TracedOk.step {x y : Traced} (h : TracedOk x) (hop : op.Well x) (he : tracedStep x op = .ok y) :
    TracedOk y := by
  obtain ⟨⟨G, own, hok, habs⟩, hk⟩ := h
  obtain ⟨hall, hload, hfl⟩ := hop
  obtain ⟨s', he', rfl⟩ := follow_eq_ok.mp he
  obtain ⟨G', own', hok', habs'⟩ := (step_ok true hok hall (fun _ => hfl) (fun _ => hload) nofun).ok_of he'
  refine ⟨⟨G', own', hok', by rw [habs', habs]⟩, ?_⟩
  cases op with
  | create a last vnode phdrs blocks stack => exact Known.create hok'.spaces hk he'
  | copy child args =>
    obtain ⟨hchild, hcur, hargs⟩ := hall.1
    obtain ⟨old, hc⟩ := Option.ne_none_iff_exists'.mp hcur
    obtain ⟨hs', -⟩ := (copy_ok hok hc hargs nofun (fun _ => hload old hc) hchild).ok_of he'
    exact Known.copy hok hk hc hargs hs'
  | store addr byte =>
    refine Known.step hk he' rfl fun q hq => ?_
    simp only [track]
    cases x.1.cur with
    | none => exact hq
    | some as => exact AddrSpace.storeAt_known hq addr byte
  | _ => exact Known.step hk he' rfl fun _ hq => hq

theorem traced_ok {x : Traced} (h : Reach tracedStep (fun x op => op.Well x) (boot m, fun _ => none) x) :
    TracedOk x := by
  refine h.invariant ⟨⟨_, _, boot_ok true m, rfl⟩, fun a as x q w ha => ?_⟩ fun x op y hx hop he => hx.step hop he
  cases ha

theorem SysOk.fault_page {ft : FaultType} {addr resid : Nat} (h : SysOk true G own s) (hc : s.cur = some as)
    (hft : ft = .read ∨ ft = .write) (hq : as.view (addr &&& pageFrame) = some (q, w))
    (hmiss : TlbMiss s.vm.tlb (addr &&& pageFrame))
    (hload : (s.vm.pds q).pfn = -1 → (s.vm.pds q).sfn = -1 →
      LoadGood as (fileData s.vnodes as) (addr &&& pageFrame) resid) :
    Post (Os161.step s (.fault ft addr resid))
      (fun s' => (s'.vm.pds q).valid = true ∧ s'.spaces = s.spaces ∧ ∃ own', SysOk true G own' s')
      (fun c => (c.why = .outOfSwapSpace ∧ SwapFull s.Live c.vm) ∨ c.why = .tooManyKernelPages) := by
  obtain ⟨fl, hg⟩ := h.idle.good
  obtain ⟨a, -, ha⟩ := Sys.cur_some hc
  have hs := h.spaces.ok a as ha
  obtain ⟨hx, hvalid, i, pt, hi, -⟩ := view_eq_some.mp hq
  have hsafe : LoadSafe G s.vm as (fileData s.vnodes as) (addr &&& pageFrame) resid :=
    h.loadSafe ha hx fun q' w' hq' _ => by
      obtain ⟨rfl, -⟩ : q' = q ∧ w' = w := by simpa using hq'.symm.trans hq
      exact hload
  have hseg : faultSegment as ft (addr &&& pageFrame) = .ok (.inl i) := by
    rcases hft with rfl | rfl <;> simp [faultSegment, asValidReadAddr, asValidWriteAddr, hvalid, hi]
  simp only [Os161.step, hc]
  refine ((vmFault_good ft hg h.idle.kern h.idle.halfAtClock hs (fun q hq => h.page_live ha hq)
    (fun m hm => ⟨(h.view_of hc m hm).2, hmiss⟩) hsafe).mono (fun _ hr => hr) fun c hf => ?_).bind ?_
  · rcases hf with ⟨-, hno⟩ | ⟨j, q', w', hj, hq', -, hget | ⟨hpf, hsf, frame, he⟩⟩
    · rw [hi] at hno; cases hno
    · rcases hget with ⟨hw, hfull⟩ | ⟨hw, -⟩ | ⟨-, -, f, hf⟩
      · exact Or.inl ⟨hw, hfull.mono fun p hp => (h.tracks.live p).mp hp⟩
      · exact Or.inr hw
      · exact absurd hf (h.idle.noHalf f)
    · -- a page without frame and slot is loaded, and that goes well
      obtain ⟨rfl, -⟩ : q' = q ∧ w' = w := by simpa using hq'.symm.trans hq
      obtain rfl := Option.some.inj (hi.symm.trans hj)
      obtain ⟨data, he', -⟩ := (hload hpf hsf).load hs hx hi frame
      rw [he'] at he; cases he
  · rintro ⟨r, v'⟩ - (⟨-, hf⟩ | ⟨rfl, q', w', hq', hin⟩)
    · rw [hseg] at hf; cases hf
    · obtain ⟨rfl, -⟩ : q' = q ∧ w' = w := by simpa using hq'.symm.trans hq
      obtain ⟨own', fl', f, hg', hk', hpo, hf, hu, -⟩ := hin
      obtain ⟨sl, hc'⟩ := hg'.core
      exact ⟨(hc'.pg.user f q' ((hpo.inRange f).mpr hf) hu).2.2.2, rfl, own',
        h.setVm (h.idle.pagesOnly ⟨fl', hg'⟩ hk' hpo)⟩

theorem SysOk.reads {a v : Nat} (h : SysOk true G own s) (ha : s.spaces a = some as)
    (hq : as.view v = some (q, w)) {y : Page}
    (hy : G.abs q = some y) (hval : (s.vm.pds q).valid = true) : SamePage (s.vm.mem (s.vm.pds q).pfn.toNat) y := by
  obtain ⟨fl, hg⟩ := h.idle.good
  obtain ⟨sl, hc⟩ := hg.core
  obtain ⟨hl, -⟩ := h.view_vaddr ha hq
  obtain ⟨f, hf, hu, hpf, -⟩ := hc.pg.resident hl (Or.inr hval)
  rw [hpf]
  exact hg.data.resident q y f hl hy hf hu

/-- Pages in memory hold what the flat memory holds, a fault at an address of
the running space leads to a page in memory with these bytes, and so does the
TLB. -/
theorem paging_is_transparent {x : Traced}
    (h : Reach tracedStep (fun x op => op.Well x) (boot m, fun _ => none) x) :
    (∀ a as v q w, x.1.spaces a = some as → as.view v = some (q, w) → ∃ y, x.2 q = some y ∧
      ((x.1.vm.pds q).valid = true → SamePage (x.1.vm.mem (x.1.vm.pds q).pfn.toNat) y)) ∧
    (∀ as ft addr resid q w, x.1.cur = some as → as.view (addr &&& pageFrame) = some (q, w) →
      (ft = .read ∨ ft = .write) → (Op.fault ft addr resid).Well x →
      Post (Os161.step x.1 (.fault ft addr resid))
        (fun s' => (s'.vm.pds q).valid = true ∧
          ∃ y, x.2 q = some y ∧ SamePage (s'.vm.mem (s'.vm.pds q).pfn.toNat) y)
        (fun c => (c.why = .outOfSwapSpace ∧ SwapFull x.1.Live c.vm) ∨ c.why = .tooManyKernelPages)) ∧
    (∀ as k, x.1.cur = some as → k < numTlb → (x.1.vm.tlb.entries k).valid = true →
      ∃ q w y, as.view (x.1.vm.tlb.entries k).vpage = some (q, w) ∧ x.2 q = some y ∧
        SamePage (x.1.vm.mem ((x.1.vm.tlb.entries k).ppage / pageSize)) y) := by
  obtain ⟨⟨G, own, hok, habs⟩, hk⟩ := traced_ok h
  refine ⟨fun a as v q w ha hq => ?_, fun as ft addr resid q w hc hq hft hop => ?_, fun as k hc hk' hv => ?_⟩
  · obtain ⟨y, hy⟩ := Option.ne_none_iff_exists'.mp (hk a as v q w ha hq)
    exact ⟨y, hy, hok.reads ha hq (habs ▸ hy)⟩
  · obtain ⟨a, -, ha⟩ := Sys.cur_some hc
    obtain ⟨y, hy⟩ := Option.ne_none_iff_exists'.mp (hk a as _ q w ha hq)
    have hro : ft ≠ .readonly := by rcases hft with rfl | rfl <;> simp
    refine (hok.fault_page hc hft hq (hop.1.1 hro) (hop.2.1 as q w hc hq)).mono ?_ fun c hc => hc
    rintro s' ⟨hval, hsp, own', hok'⟩
    exact ⟨hval, y, hy, hok'.reads (hsp ▸ ha) hq (habs ▸ hy) hval⟩
  · obtain ⟨a, -, ha⟩ := Sys.cur_some hc
    obtain ⟨fl, hg⟩ := hok.idle.good
    obtain ⟨sl, hcore⟩ := hg.core
    obtain ⟨-, q, w, f, hq, hf, hu, hpp, -⟩ := (hg.tlb _ (hok.view_cur hc)).entry k hk' hv
    obtain ⟨y, hy⟩ := Option.ne_none_iff_exists'.mp (hk a as _ q w ha hq)
    refine ⟨q, w, y, hq, hy, ?_⟩
    rw [hpp, Nat.mul_div_cancel f (by decide)]
    exact hg.data.resident q y f (hcore.pg.user f q hf hu).1 (habs ▸ hy) hf hu

/-! ## A page that is stored to, and one that is loaded badly -/

def tracedAfter (x : Traced) (op : Op) : Traced := (after x.1 op, track true x.1 (after x.1 op) op x.2)

theorem goesThrough_traced {P : Sys → Op → Bool} {a : Nat} {l : List Op} {x : Traced} (hs : x.1.Only a)
    (h : goesThrough P a x.1 l = true) :
    Reach tracedStep (fun x op => op.Allowed x.1 ∧ P x.1 op = true) x (l.foldl tracedAfter x) ∧
      (l.foldl tracedAfter x).1.Only (l.foldl (fun a op => op.target.getD a) a) := by
  induction l generalizing a x with
  | nil => exact ⟨.refl, hs⟩
  | cons op l ih =>
    obtain ⟨hp, hP, he, h⟩ := goesThrough_cons h
    obtain ⟨hr, honly⟩ := ih (x := tracedAfter x op) (plain_only hs hp he) h
    have hhead : Reach tracedStep (fun x op => op.Allowed x.1 ∧ P x.1 op = true) x (tracedAfter x op) :=
      Reach.refl.tail ⟨plain_allowed hs hp, hP⟩ (follow_eq_ok.mpr ⟨_, he, rfl⟩)
    exact ⟨hhead.trans hr, honly⟩

def AddrSpace.Blank (as : AddrSpace) : Bool :=
  (List.range asNumSeg).all fun i =>
    (as.segments i).pFilesz == 0 && ((as.segments i).active == 0 || (as.segments i).writeable != 0)

theorem AddrSpace.Blank.loadGood {file : List UInt8} {v resid : Nat} (h : as.Blank = true)
    (hz : zeroed (u32 (resid + pageSize)) pageSize = pageSize) : LoadGood as file v resid := by
  intro i hi
  have hblank := List.all_eq_true.mp h i (List.mem_range.mpr (asGetSegment_some hi).1)
  simp only [Bool.and_eq_true, beq_iff_eq] at hblank
  exact ⟨fun hlt => absurd hlt (by rw [hblank.1]; omega), fun _ => hz⟩

def Op.tame (s : Sys) (op : Op) : Bool :=
  decide (op.Flushes s) &&
    match op with
    | .fault _ _ resid => s.cur.all AddrSpace.Blank && decide (zeroed (u32 (resid + pageSize)) pageSize = pageSize)
    | .copy .. => false
    | _ => true

theorem tame_well {x : Traced} (h : op.Allowed x.1 ∧ op.tame x.1 = true) : op.Well x := by
  obtain ⟨hall, h⟩ := h
  simp only [Op.tame, Bool.and_eq_true, decide_eq_true_eq] at h
  refine ⟨hall, ?_, h.1⟩
  cases op with
  | fault faulttype addr resid =>
    intro as q w hc _ _ _
    simp only [Bool.and_eq_true, decide_eq_true_eq, Option.all_eq_true] at h
    exact AddrSpace.Blank.loadGood (h.2.1 as hc) h.2.2
  | copy child args => cases h.2
  | _ => trivial

def written : Traced :=
  tracedAfter (tracedAfter (tracedAfter (tracedAfter (boot tiny, fun _ => none) (.create 0 emptySegment 0 [] [] 0))
    (.activate 0)) (.fault .write 0x7fff4000 0)) (.store 0x7fff4000 0xaa)

theorem written_reach : Reach tracedStep (fun x op => op.Allowed x.1 ∧ op.tame x.1 = true)
    (boot tiny, fun _ => none) written ∧ written.1.Only 0 := by
  have h := goesThrough_traced (P := fun s op => op.tame s) (x := (boot tiny, fun _ => none)) (a := 0)
    (l := [.create 0 emptySegment 0 [] [] 0, .activate 0, .fault .write 0x7fff4000 0, .store 0x7fff4000 0xaa])
    (fun _ _ => rfl) (by decide +kernel)
  simp only [List.foldl_cons, List.foldl_nil] at h
  exact h

theorem paging_is_transparent_written : Reach tracedStep (fun x op => op.Well x) (boot tiny, fun _ => none) written ∧
    ∃ y, written.2 { block := 0, idx := 0 } = some y ∧ y 0 = 0xaa ∧
      SamePage (written.1.vm.mem (written.1.vm.pds { block := 0, idx := 0 }).pfn.toNat) y := by
  have h₄ := written_reach.1.weaken fun _ _ => tame_well
  obtain ⟨as, hs, hv⟩ := (Option.any_eq_true (fun as : AddrSpace =>
    as.view 0x7fff4000 == some ({ block := 0, idx := 0 }, true)) (written.1.spaces 0)).mp (by decide +kernel)
  obtain ⟨y, hy, hread⟩ := (paging_is_transparent h₄).1 0 as _ _ _ hs (beq_iff_eq.mp hv)
  have h0 : (written.2 { block := 0, idx := 0 }).map (fun y => y 0) = some 0xaa := by decide +kernel
  rw [hy] at h0
  exact ⟨h₄, y, hy, Option.some.inj h0, hread (by decide +kernel)⟩

def badlyLoaded : Traced :=
  tracedAfter (tracedAfter (tracedAfter (tracedAfter written (.destroy 0)) (.create 1 emptySegment 0 [] [] 1))
    (.activate 1)) (.fault .read 0x7fff4000 4294963200)

theorem page_shows_another_pages_byte :
    Reach tracedStep (fun x op => op.Allowed x.1 ∧ ¬ op.IsCopy) (boot tiny, fun _ => none) badlyLoaded ∧
    (badlyLoaded.1.cur.bind fun as => as.view 0x7fff4000) = some ({ block := 1, idx := 0 }, true) ∧
    (badlyLoaded.1.vm.pds { block := 1, idx := 0 }).valid = true ∧
    (badlyLoaded.2 { block := 1, idx := 0 }).map (fun y => y 0) = some 0 ∧
    badlyLoaded.1.vm.mem (badlyLoaded.1.vm.pds { block := 1, idx := 0 }).pfn.toNat 0 = 0xaa := by
  have h := goesThrough_traced (P := fun _ op => decide ¬ op.IsCopy) (x := written) (a := 0)
    (l := [.destroy 0, .create 1 emptySegment 0 [] [] 1, .activate 1, .fault .read 0x7fff4000 4294963200])
    written_reach.2 (by decide +kernel)
  simp only [List.foldl_cons, List.foldl_nil] at h
  have hwritten : Reach tracedStep (fun x op => op.Allowed x.1 ∧ ¬ op.IsCopy) (boot tiny, fun _ => none) written :=
    written_reach.1.weaken fun x op hop => ⟨hop.1, fun hcopy => by
      cases op with
      | copy child args => simp [Op.tame] at hop
      | _ => exact hcopy⟩
  exact ⟨hwritten.trans (h.1.weaken fun _ _ hop => ⟨hop.1, of_decide_eq_true hop.2⟩), by decide +kernel⟩

end Os161
