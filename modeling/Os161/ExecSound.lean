import Os161.VmsysSound

/-!
# Loading a program into a new space

`load_elf` and `as_define_stack` give each segment a page table in a block of
its own, with entries for pages that are nowhere yet. The new space joins the
system with those pages; each should hold what its file says.
-/

namespace Os161

open Linked Outcome

/-! ## Page tables as they are laid out -/

structure Laid (I : Nat → Prop) (as : AddrSpace) (pds₀ pds : PdPtr → PageDetail) (used : List Nat) : Prop where
  table : ∀ i, I i → ∃ block ∈ used, (as.segments i).pt = some { size := (as.segments i).size, block := block }
  inj : ∀ i j pt pt', I i → I j → (as.segments i).pt = some pt → (as.segments j).pt = some pt' →
    pt.block = pt'.block → i = j
  entry : ∀ i pt k, I i → (as.segments i).pt = some pt → k < pt.size →
    pds { block := pt.block, idx := k } = ptEntry (as.segments i) k
  other : ∀ q, q.block ∉ used → pds q = pds₀ q

variable {I : Nat → Prop} {as as' : AddrSpace} {pds₀ pds pds' : PdPtr → PageDetail} {used : List Nat}

theorem Laid.none (as : AddrSpace) (pds : PdPtr → PageDetail) (hI : ∀ i, ¬ I i) : Laid I as pds pds [] :=
  ⟨fun i hi => absurd hi (hI i), fun i _ _ _ hi => absurd hi (hI i), fun i _ _ hi => absurd hi (hI i), fun _ _ => rfl⟩

theorem Laid.add {n block : Nat} (as' : AddrSpace) (seg : Segment) (h : Laid I as pds₀ pds used) (hb : block ∉ used)
    (hseg : seg.pt = some { size := seg.size, block := block }) (hn : as'.segments n = seg)
    (hold : ∀ i, I i → i ≠ n ∧ as'.segments i = as.segments i) :
    Laid (fun i => i = n ∨ I i) as' pds₀ (ptCreate pds seg block).2 (block :: used) := by
  have hblock : ∀ i pt, I i → (as.segments i).pt = some pt → pt.block ≠ block := by
    intro i pt hi hpt
    obtain ⟨block', hused, hpt'⟩ := h.table i hi
    obtain rfl := Option.some.inj (hpt.symm.trans hpt')
    rintro rfl
    exact hb hused
  refine ⟨?_, ?_, ?_, fun q hq => ?_⟩
  · rintro i (rfl | hi)
    · exact ⟨block, List.mem_cons_self .., by rw [hn]; exact hseg⟩
    · rw [(hold i hi).2]
      exact (h.table i hi).imp fun _ hx => ⟨List.mem_cons_of_mem _ hx.1, hx.2⟩
  · rintro i j pt pt' (rfl | hi) (rfl | hj) hpt hpt' e
    · rfl
    · rw [hn, hseg] at hpt
      rw [(hold j hj).2] at hpt'
      obtain rfl := Option.some.inj hpt
      exact absurd e.symm (hblock j pt' hj hpt')
    · rw [hn, hseg] at hpt'
      rw [(hold i hi).2] at hpt
      obtain rfl := Option.some.inj hpt'
      exact absurd e (hblock i pt hi hpt)
    · rw [(hold i hi).2] at hpt
      rw [(hold j hj).2] at hpt'
      exact h.inj i j pt pt' hi hj hpt hpt' e
  · rintro i pt k (rfl | hi) hpt hk
    · rw [hn] at hpt ⊢
      obtain rfl := Option.some.inj (hpt.symm.trans hseg)
      simp only [ptCreate, hk, and_self, if_true]
    · rw [(hold i hi).2] at hpt ⊢
      simp only [ptCreate, hblock i pt hi hpt, false_and, if_false]
      exact h.entry i pt k hi hpt hk
  · rw [List.mem_cons, not_or] at hq
    simp only [ptCreate, hq.1, false_and, if_false]
    exact h.other q hq.2

/-! ## `load_elf` and the stack -/

def loads (phdrs : List Phdr) : List Phdr := phdrs.filter fun ph => ph.pType = .load

theorem loadElfSegments_ok {phdrs : List Phdr} {blocks : List Nat} (h : RegionsOk as)
    (hl : Laid (· < as.numSegments) as pds₀ pds used) (hnd : blocks.Nodup) (hfresh : ∀ b ∈ blocks, b ∉ used)
    (hlen : (loads phdrs).length ≤ blocks.length) :
    ∃ r as' pds', loadElfSegments as pds phdrs blocks = .ok (r, as', pds') ∧
      (r ≠ none → (∃ ph ∈ phdrs, ph.pType = .other) ∨ asNumSeg - 1 < as.numSegments + (loads phdrs).length) ∧
      RegionsOk as' ∧ as'.file = as.file ∧ as'.segments (asNumSeg - 1) = as.segments (asNumSeg - 1) ∧
      ∃ used', Laid (· < as'.numSegments) as' pds₀ pds' used' ∧ ∀ b ∈ used', b ∈ used ∨ b ∈ blocks := by
  induction phdrs generalizing as pds used blocks with
  | nil => exact ⟨none, as, pds, rfl, fun hr => absurd rfl hr, h, rfl, rfl, used, hl, fun b hb => Or.inl hb⟩
  | cons ph phdrs ih =>
    by_cases hskip : ph.pType ≠ .load ∧ ph.pType ≠ .other
    · have heq : loadElfSegments as pds (ph :: phdrs) blocks = loadElfSegments as pds phdrs blocks := by
        cases ht : ph.pType <;> simp_all [loadElfSegments]
      have hloads : loads (ph :: phdrs) = loads phdrs := by simp [loads, hskip.1]
      rw [hloads] at hlen ⊢
      rw [heq]
      simpa only [List.mem_cons, exists_eq_or_imp, hskip.2, false_or] using ih h hl hnd hfresh hlen
    cases ht : ph.pType with
    | other =>
      exact ⟨some .enoexec, as, pds, by simp only [loadElfSegments, ht],
        fun _ => Or.inl ⟨ph, List.mem_cons_self .., ht⟩, h, rfl, rfl, used, hl, fun b hb => Or.inl hb⟩
    | null | phdr | mipsReginfo => exact absurd ⟨by simp [ht], by simp [ht]⟩ hskip
    | load =>
      cases blocks with
      | nil => simp [loads, ht] at hlen
      | cons block blocks =>
        obtain ⟨hb, hnd⟩ := List.nodup_cons.mp hnd
        have hcons : (loads (ph :: phdrs)).length = (loads phdrs).length + 1 := by simp [loads, ht]
        have hlen' : (loads phdrs).length ≤ blocks.length := by simpa [loads, ht] using hlen
        obtain ⟨r, as₁, pds₁, he⟩ := asDefineRegion_total h pds block ph.pVaddr ph.pMemsz ph.pFlags
          ph.pOffset ph.pFilesz
        simp only [loadElfSegments, ht, List.headD_cons, List.tail_cons, he, ok_bind]
        have h₁ := asDefineRegion_ok h he
        obtain ⟨hn, rfl, rfl, rfl⟩ | ⟨hn, rfl, rfl, rfl⟩ := asDefineRegion_cases h he
        · have hl₁ := hl.add { as.setSegment as.numSegments
              (regionSegment block ph.pVaddr ph.pMemsz ph.pFlags ph.pOffset ph.pFilesz) with
              numSegments := as.numSegments + 1 } (regionSegment block ph.pVaddr ph.pMemsz ph.pFlags
                ph.pOffset ph.pFilesz)
            (hfresh block (List.mem_cons_self ..)) rfl
            (by simp [AddrSpace.setSegment]) fun i (hi : i < as.numSegments) =>
              ⟨Nat.ne_of_lt hi, by simp [AddrSpace.setSegment, Nat.ne_of_lt hi]⟩
          have hI : (fun i => i = as.numSegments ∨ i < as.numSegments) = (· < as.numSegments + 1) := by
            funext i; simp only [eq_iff_iff]; omega
          rw [hI] at hl₁
          have hfresh' : ∀ b ∈ blocks, b ∉ block :: used := fun b hb' hm => by
            rcases List.mem_cons.mp hm with rfl | hm
            · exact hb hb'
            · exact hfresh b (List.mem_cons_of_mem _ hb') hm
          obtain ⟨r, as', pds', he', hr, h', hf, hst, used', hl', hu⟩ := ih h₁ hl₁ hnd hfresh' hlen'
          refine ⟨r, as', pds', he', fun e => ?_, h', hf, hst.trans ?_, used', hl', fun b hb' => ?_⟩
          · rcases hr e with ⟨ph', hm, ho⟩ | hlt
            · exact Or.inl ⟨ph', List.mem_cons_of_mem _ hm, ho⟩
            · dsimp only at hlt
              omega
          · exact Function.update_of_ne (Nat.ne_of_gt hn) ..
          rcases hu b hb' with hm | hm
          · rcases List.mem_cons.mp hm with rfl | hm
            · exact Or.inr (List.mem_cons_self ..)
            · exact Or.inl hm
          · exact Or.inr (List.mem_cons_of_mem _ hm)
        · -- the space is full
          refine ⟨some .eunimp, _, _, rfl, fun _ => Or.inr ?_, h, rfl, rfl, used, hl, fun b hb => Or.inl hb⟩
          omega

def AddrSpace.segmentOf (as : AddrSpace) (p : PdPtr) : Option Nat :=
  (List.range asNumSeg).find? fun i =>
    (as.segments i).active != 0 && (as.segments i).pt.map (fun pt => pt.block) == some p.block

theorem segmentOf_eq {i : Nat} {p : PdPtr}
    (hinj : ∀ i j pt pt', as.Table i pt → as.Table j pt' → pt.block = pt'.block → i = j) (h : as.Has i p) :
    as.segmentOf p = some i := by
  obtain ⟨pt, hpt, hb, -⟩ := h.table
  have hi : ((as.segments i).active != 0 && (as.segments i).pt.map (fun pt => pt.block) == some p.block) = true := by
    simp [h.active, hpt, hb]
  unfold AddrSpace.segmentOf
  cases hf : (List.range asNumSeg).find? fun i =>
      (as.segments i).active != 0 && (as.segments i).pt.map (fun pt => pt.block) == some p.block with
  | none => exact absurd hi (List.find?_eq_none.mp hf i (List.mem_range.mpr h.lt))
  | some j =>
    have hj := List.find?_some hf
    have hjr := List.mem_range.mp (List.mem_of_find?_eq_some hf)
    simp only [Bool.and_eq_true, bne_iff_ne, beq_iff_eq, Option.map_eq_some_iff] at hj
    obtain ⟨ha, pt', hpt', hb'⟩ := hj
    rw [hinj j i pt' pt ⟨hjr, ha, hpt'⟩ ⟨h.lt, h.active, hpt⟩ (hb'.trans hb)]

def AddrSpace.image (as : AddrSpace) (file : List UInt8) (p : PdPtr) : Page :=
  match as.segmentOf p with
  | none => fun _ => 0
  | some i => segImage file (as.segments i) p.idx

structure Fresh (as : AddrSpace) (pds₀ pds : PdPtr → PageDetail) (blocks : List Nat) : Prop where
  ok : SpaceOk as
  stack : (as.segments (asNumSeg - 1)).active ≠ 0
  table : ∀ i pt, as.Table i pt → pt.block ∈ blocks
  inj : ∀ i j pt pt', as.Table i pt → as.Table j pt' → pt.block = pt'.block → i = j
  entry : ∀ i p, as.Has i p → pds p = ptEntry (as.segments i) p.idx
  other : ∀ q, q.block ∉ blocks → pds q = pds₀ q

/-- What `load_elf` leaves of a space when it fails, if the last segment has
no pages: entries of pages that are nowhere. -/
structure HalfBuilt (as : AddrSpace) (pds₀ pds : PdPtr → PageDetail) (blocks : List Nat) : Prop where
  entry : ∀ p ∈ as.pages, (pds p).pfn = -1 ∧ (pds p).sfn = -1
  other : ∀ q, q.block ∉ blocks → pds q = pds₀ q

def Unloadable (phdrs : List Phdr) : Prop := (∃ ph ∈ phdrs, ph.pType = .other) ∨ asNumSeg - 1 < (loads phdrs).length

theorem asLoad_fresh (pds : PdPtr → PageDetail) (last : Segment) (vnode : Nat) {stack : Nat} {phdrs : List Phdr}
    {blocks : List Nat} (hnd : (stack :: blocks).Nodup) (hlen : (loads phdrs).length ≤ blocks.length) :
    ∃ r as pds', asLoad pds last vnode phdrs blocks stack = .ok (r, as, pds') ∧ as.file = some vnode ∧
      (r = none → Fresh as pds pds' (stack :: blocks)) ∧
      (r ≠ none → Unloadable phdrs ∧ (last.active = 0 ∨ last.pt = none → HalfBuilt as pds pds' blocks)) := by
  obtain ⟨hst, hnd⟩ := List.nodup_cons.mp hnd
  have h₀ : RegionsOk { asCreate last with file := some vnode } := by
    obtain ⟨h1, h2, h3⟩ := asCreate_ok last
    exact ⟨h1, h2, h3⟩
  have hl₀ : Laid (· < (asCreate last).numSegments) { asCreate last with file := some vnode } pds pds [] :=
    Laid.none _ _ fun i => Nat.not_lt_zero i
  obtain ⟨r, as, pds₁, he, hr, hreg, hfile, hlast, used, hl, hu⟩ :=
    loadElfSegments_ok h₀ hl₀ hnd (fun b _ => List.not_mem_nil) hlen
  have hused : ∀ b ∈ used, b ∈ blocks := fun b hb => (hu b hb).resolve_left List.not_mem_nil
  unfold asLoad
  simp only [he, ok_bind]
  cases r with
  | some e =>
    refine ⟨some e, as, pds₁, rfl, hfile, fun h => (by cases h),
        fun h => ⟨?_, fun hclean => ⟨fun p hp => ?_, fun q hq =>
      hl.other q fun hm => hq (hused _ hm)⟩⟩⟩
    · exact (hr h).imp_right fun hlt => by simpa [asCreate] using hlt
    · obtain ⟨i, hi⟩ := mem_pages.mp hp
      obtain ⟨pt, hpt, hb, hk⟩ := hi.table
      have hin : i < as.numSegments := by
        by_contra hge
        rcases Nat.lt_or_ge i (asNumSeg - 1) with hlt | hge'
        · exact hi.active (by rw [hreg.empty i (Nat.le_of_not_lt hge) hlt]; rfl)
        · have := hi.lt
          obtain rfl : i = asNumSeg - 1 := by omega
          rcases hclean with ha | hp
          · exact hi.active (by rw [hlast]; exact ha)
          · rw [hlast] at hpt
            exact absurd (hpt.symm.trans hp) (by simp)
      have := hl.entry i pt p.idx hin hpt hk
      rw [← hb] at this
      rw [this]
      exact ⟨rfl, rfl⟩
  | none =>
    simp only [asDefineStack_eq]
    have hlt : ∀ i, i < as.numSegments → i ≠ asNumSeg - 1 := fun i hi => by have := hreg.count; omega
    have hl' := hl.add (as.setSegment (asNumSeg - 1) (stackSegment stack)) (stackSegment stack)
      (fun hm => hst (hused stack hm)) rfl
      (by simp [AddrSpace.setSegment]) fun i hi => ⟨hlt i hi, by simp [AddrSpace.setSegment, hlt i hi]⟩
    -- an active segment is a region or the stack
    have hact : ∀ i, i < asNumSeg → ((as.setSegment (asNumSeg - 1) (stackSegment stack)).segments i).active ≠ 0 →
        i = asNumSeg - 1 ∨ i < as.numSegments := fun i hi ha => by
      by_contra hc
      rw [not_or] at hc
      simp only [AddrSpace.setSegment, Function.update_of_ne hc.1] at ha
      rw [hreg.empty i (Nat.le_of_not_lt hc.2) (by omega)] at ha
      exact ha rfl
    have hblocks : ∀ b, b ∈ stack :: used → b ∈ stack :: blocks := fun b hb => by
      rcases List.mem_cons.mp hb with rfl | hb
      · exact List.mem_cons_self ..
      · exact List.mem_cons_of_mem _ (hused b hb)
    refine ⟨none, _, _, rfl, hfile, fun _ => ⟨hreg.withStack stack, ?_, fun i pt ht => ?_, fun i j pt pt' ht ht' => ?_,
      fun i p hp => ?_, fun q hq => hl'.other q fun hm => hq (hblocks _ hm)⟩, fun h => absurd rfl h⟩
    · simp [AddrSpace.setSegment, stackSegment]
    · obtain ⟨b, hb, hpt⟩ := hl'.table i (hact i ht.lt ht.active)
      rw [← Option.some.inj (hpt.symm.trans ht.eq)]
      exact hblocks b hb
    · exact hl'.inj i j pt pt' (hact i ht.lt ht.active) (hact j ht'.lt ht'.active) ht.eq ht'.eq
    · obtain ⟨pt, hpt, hb, hk⟩ := hp.table
      have := hl'.entry i pt p.idx (hact i hp.lt hp.active) hpt hk
      rwa [← hb] at this

/-! ## The new space in the system -/

def Ghost.add (G : Ghost) (l : List PdPtr) (abs : PdPtr → Option Page) (img : PdPtr → Page)
    (pds : PdPtr → PageDetail) : Ghost where
  live q := G.live q ∨ q ∈ l
  view := G.view
  abs q := if q ∈ l then abs q else G.abs q
  img q := if q ∈ l then img q else G.img q
  vaddr q := if q ∈ l then (pds q).vaddr else G.vaddr q
  dirty q := if q ∈ l then (pds q).dirty else G.dirty q

theorem Ghost.add_adds {G : Ghost} {l : List PdPtr} {abs : PdPtr → Option Page} {img : PdPtr → Page}
    (hl : ∀ q ∈ l, ¬ G.live q) : G.Adds (G.add l abs img pds) (· ∈ l) :=
  ⟨fun _ => Iff.rfl, rfl, fun q hq => if_neg fun hm => hl q hm hq, fun q hq => if_neg fun hm => hl q hm hq,
    fun q hq => if_neg fun hm => hl q hm hq, fun q hq => if_neg fun hm => hl q hm hq⟩

theorem ptEntry_blank {seg : Segment} (h : seg.vbase % pageSize = 0) (j : Nat) : Blank (ptEntry seg j) := by
  refine ⟨rfl, rfl, rfl, (and_pageFrame_eq_iff (u32_lt _)).mpr (u32_aligned ?_)⟩
  unfold pageSize at *
  omega

variable {b t : Bool} {G : Ghost} {own : Nat → Owner} {s : Sys} {a : Nat}

theorem freePages_blank {l : List PdPtr} {v : Vm} (h : ∀ p ∈ l, (v.pds p).pfn = -1 ∧ (v.pds p).sfn = -1) :
    freePages l v = .ok v := by
  induction l with
  | nil => rfl
  | cons p l ih =>
    obtain ⟨hp, hs⟩ := h p (List.mem_cons_self ..)
    have hpage : freePage v p = .ok v := by
      simp only [freePage, hp, hs, ne_eq, not_true_eq_false, if_false, ok_bind]
    rw [freePages, hpage]
    exact ih fun q hq => h q (List.mem_cons_of_mem _ hq)

/-- What a failing load leaves: the TLB is that of a space that is gone, and
the entries it wrote are in blocks that nobody uses. -/
theorem asDestroy_halfBuilt {as : AddrSpace} {pds : PdPtr → PageDetail} {blocks : List Nat} {vnode : Nat}
    (h : SysOk b G own s) (hfree : s.spaces a = none) (hfresh : ∀ b ∈ blocks, s.FreshBlock b)
    (hfile : as.file = some vnode) (hh : HalfBuilt as s.vm.pds pds blocks) {s₁ : Sys} (hs₁ : s₁ = { s with
      vm := { s.vm with pds := pds }
      vnodes := Function.update s.vnodes vnode { s.vnodes vnode with opencount := (s.vnodes vnode).opencount + 1 }
      spaces := Function.update s.spaces a (some as) }) :
    ∃ s' G', asDestroy { asActivate s₁ a with curAs := some a } a as = .ok s' ∧ SysOk b G' own s' ∧
      s'.spaces = s.spaces ∧ G'.abs = G.abs := by
  obtain ⟨fl, hg⟩ := h.idle.good
  have hdead : ∀ q, G.live q → q.block ∉ blocks := fun q hl hq => by
    obtain ⟨a', as', i, ha', hi⟩ := Sys.live_iff.mp ((h.tracks.live q).mp hl)
    exact hfresh q.block hq a' i (hi.hasTable ha')
  have hgood := (hg.setPds pds fun q hq => hh.other q (hdead q hq)).setTlb (asActivate s₁ a).vm.tlb none nofun
  have hspaces : Function.update s.spaces a none = s.spaces := by rw [← hfree, Function.update_eq_self]
  refine ⟨{ s with
    vm := { s.vm with pds := pds, tlb := (asActivate s₁ a).vm.tlb }
    curAs := none
    lastAddrspace := some a
    lastGone := true }, { G with view := none }, ?_, ⟨⟨⟨fl, hgood⟩, h.idle.kern, h.idle.calm, h.idle.runs⟩, h.spaces,
      ⟨h.tracks.live, h.tracks.page⟩, by simp [Sys.view], nofun, nofun, nofun⟩, rfl, rfl⟩
  have hpages : asFreeSegments (asActivate s₁ a).vm as = .ok (asActivate s₁ a).vm := by
    subst hs₁
    exact freePages_blank hh.entry
  unfold asDestroy
  simp only [hpages, ok_bind, hfile]
  subst hs₁
  simp [asActivate, hspaces]

theorem create_ok (t : Bool) (last : Segment) (vnode : Nat) {stack : Nat} {phdrs : List Phdr} {blocks : List Nat}
    (h : SysOk b G own s) (hfree : s.spaces a = none) (hnd : (stack :: blocks).Nodup)
    (hlen : (loads phdrs).length ≤ blocks.length) (hfresh : ∀ b ∈ stack :: blocks, s.FreshBlock b)
    (hclean : Unloadable phdrs → last.active = 0 ∨ last.pt = none) :
    ∃ s' G', step s (.create a last vnode phdrs blocks stack) = .ok s' ∧ SysOk b G' own s' ∧
      ∀ q, G'.abs q = match s'.spaces a with
        | none => G.abs q
        | some as =>
          if q ∈ as.pages then (if t then some (as.image (fileData s'.vnodes as) q) else none) else G.abs q := by
  obtain ⟨fl, hg⟩ := h.idle.good
  obtain ⟨r, as, pds, he, hfile, hf, hr⟩ := asLoad_fresh s.vm.pds last vnode hnd hlen
  simp only [step, he, raise_ok, ok_bind]
  cases r with
  | some e =>
    obtain ⟨hfails, hh⟩ := hr (by simp)
    obtain ⟨s', G', he', h', hspaces, habs⟩ := asDestroy_halfBuilt h hfree
      (fun b hb => hfresh b (List.mem_cons_of_mem _ hb)) hfile (hh (hclean hfails)) rfl
    exact ⟨s', G', he', h', fun q => by rw [hspaces, hfree, habs]⟩
  | none =>
    have hf := hf rfl
    have hblock : ∀ q, q ∈ as.pages → q.block ∈ stack :: blocks := fun q hq => by
      obtain ⟨i, hi⟩ := mem_pages.mp hq
      obtain ⟨pt, hpt, hb, -⟩ := hi.table
      rw [hb]
      exact hf.table i pt ⟨hi.lt, hi.active, hpt⟩
    have hdead : ∀ q, q.block ∈ stack :: blocks → ¬ G.live q := fun q hq hl => by
      obtain ⟨a', as', i, ha', hi⟩ := Sys.live_iff.mp ((h.tracks.live q).mp hl)
      exact hfresh q.block hq a' i (hi.hasTable ha')
    let file := fileData s.vnodes as
    let img : PdPtr → Page := as.image file
    let abs : PdPtr → Option Page := fun q => if t then some (img q) else none
    have hadds : G.Adds (G.add as.pages abs img pds) (· ∈ as.pages) := Ghost.add_adds fun q hq => hdead q (hblock q hq)
    have hgood : Good (G.add as.pages abs img pds) own fl { s.vm with pds := pds } := by
      refine (hg.setPds pds fun q hq => hf.other q fun hm => hdead q hm hq).adopt hadds
        (fun q hq => hdead q (hblock q hq)) (fun q hq => ?_) (fun q hq => ?_) fun q x hq hx => ?_
      · obtain ⟨i, hi⟩ := mem_pages.mp hq
        show Blank (pds q)
        rw [hf.entry i q hi]
        exact ptEntry_blank ((hf.ok i hi.lt).resolve_left hi.active).base _
      · simp only [Ghost.add, if_pos hq, and_self]
      · simp only [Ghost.add, if_pos hq, abs] at hx ⊢
        split at hx
        · rw [← Option.some.inj hx]; exact SamePage.refl _
        · cases hx
    have hdata : ∀ as, fileData (Function.update s.vnodes vnode { s.vnodes vnode with
        opencount := (s.vnodes vnode).opencount + 1 }) as = fileData s.vnodes as := fun as => by
      rw [fileData_update]; rfl
    refine ⟨_, G.add as.pages abs img pds, rfl, h.addSpace hfree hf.ok (by rw [hfile]; simp) hf.stack
      (fun i pt ht => hfresh _ (hf.table i pt ht)) hf.inj hadds (fun i p hp => ?_) hdata
      ⟨⟨fl, hgood⟩, h.idle.kern, h.idle.calm, h.idle.runs⟩,
      fun q => ?_⟩
    · have hm : p ∈ as.pages := mem_pages.mpr ⟨i, hp⟩
      simp only [Ghost.add, if_pos hm, hf.entry i p hp, img, AddrSpace.image, segmentOf_eq hf.inj hp]
      exact ⟨trivial, rfl, rfl⟩
    · simp only [Function.update_self, hdata]
      rfl

end Os161
