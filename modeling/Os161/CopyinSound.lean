import Os161.ExecSound

/-!
# A page read through the TLB while a frame is in flight

`as_copy_segments` takes a frame for the new page, then reads the old page
with `copyin`, which may fault, and only then gives the frame to the new
page.
-/

namespace Os161

open Linked Outcome

variable {G : Ghost} {own own' : Nat → Owner} {fl fl' : List Nat} {s s' : Vm} {f : Nat} {p q r : PdPtr}

/-! ## A new page gets a frame -/

theorem cmFinishPaging_eq (h : (s.pds p).sfn = -1) :
    cmFinishPaging s f p = pagedIn s f p (s.mem f) s.swap s.tlb := by
  have hpd : ({ s.pds p with pfn := f, valid := true } : PageDetail) =
      { s.pds p with pfn := f, valid := true, sfn := -1 } := by rw [← h]
  simp only [cmFinishPaging, pagedIn, Function.update_eq_self, Vm.modifyPd, hpd]

theorem Good.finish {x : Option Page} {img : Page} (h : Good G own fl s) (hr : s.cm.InRange f) (hb : own f = .busy)
    (hp : ¬ G.live p) (hs : (s.pds p).sfn = -1) (hal : (s.pds p).vaddr &&& pageFrame = (s.pds p).vaddr)
    (hd : x ≠ none → (s.pds p).dirty = true) (hx : ∀ y, x = some y → SamePage (s.mem f) y) :
    Good (G.add [p] (fun _ => x) (fun _ => img) s.pds) (Function.update own f (.user p)) fl (cmFinishPaging s f p) := by
  -- as if the page had been blank until now, and its bytes unknown
  have hlive : ∀ q, G.live q → q ≠ p := fun q hq => by rintro rfl; exact hp hq
  have hblank := h.setPds (Function.update s.pds p { s.pds p with pfn := -1, valid := false }) fun q hq =>
    Function.update_of_ne (hlive q hq) ..
  have hadds : G.Adds (G.add [p] (fun _ => none) (fun _ => img) s.pds) (· ∈ [p]) :=
    Ghost.add_adds fun q hq => by rw [List.mem_singleton.mp hq]; exact hp
  have hadopt := hblank.adopt hadds (fun q hq => by rw [List.mem_singleton.mp hq]; exact hp)
    (fun q hq => by
      rw [List.mem_singleton.mp hq]
      simp only [Function.update_self]
      exact ⟨rfl, hs, rfl, hal⟩)
    (fun q hq => by rw [List.mem_singleton.mp hq]; simp [Ghost.add])
    (fun q y hq hy => by rw [List.mem_singleton.mp hq] at hy; simp [Ghost.add] at hy)
  obtain ⟨sl, hc⟩ := h.core
  have hno : ∀ g, s.cm.InRange g → own g ≠ .user p := fun g hg e => hp (hc.pg.user g p hg e).1
  have hgood := hadopt.fill (s.mem f) s.swap s.tlb hr hb (Or.inr (List.mem_singleton_self p))
    hno (Or.inl ⟨rfl, by simpa using hs⟩) (fun y hy => by simp [Ghost.add] at hy) fun m hm =>
      (hadopt.tlb m hm).keep (fun _ => Iff.rfl) (user_of_update hb) rfl fun q _ => pagedIn_vaddr q
  have hst : pagedIn ({ s with pds := Function.update s.pds p { s.pds p with pfn := -1, valid := false } } : Vm) f p
      (s.mem f) s.swap s.tlb = cmFinishPaging s f p := by
    rw [cmFinishPaging_eq hs]
    simp [pagedIn]
  rw [hst] at hgood
  cases x with
  | none => exact hgood
  | some y =>
    have hdirty : ((cmFinishPaging s f p).pds p).dirty = true := by
      simpa [cmFinishPaging] using hd (by simp)
    have := hgood.rewrite (s.mem f) (some y) hr (Function.update_self ..) hdirty fun z hz => by
      rw [← Option.some.inj hz]; exact hx y rfl
    have hmem : (cmFinishPaging s f p).mem = s.mem := rfl
    rw [hmem, Function.update_eq_self] at this
    have hG : (G.add [p] (fun _ => none) (fun _ => img) s.pds).setAbs p (some y) =
        G.add [p] (fun _ => some y) (fun _ => img) s.pds := by
      simp only [Ghost.setAbs, Ghost.add, Ghost.mk.injEq, true_and, and_true, List.mem_singleton]
      funext q
      rcases eq_or_ne q p with rfl | hq
      · simp
      · simp [hq]
    rwa [hG] at this

theorem cmFinishPaging_kernOk (hk : KernOk own s.cm) :
    KernOk (Function.update own f (.user p)) (cmFinishPaging s f p).cm := by
  refine hk.congr (fun _ => Iff.rfl) fun g _ => ?_
  rcases eq_or_ne g f with rfl | hgf
  · left
    rw [Function.update_self]
    show ((cmFinishPaging s g p).cm.coreDetails g).kern = 0
    simp [cmFinishPaging]
  · right
    rw [Function.update_of_ne hgf]
    simp [cmFinishPaging, Cm.modify_of_ne hgf]

/-! ## Looking an address up in the TLB -/

theorem tlbLookup_none {t : Tlb} {x : Nat} (h : tlbLookup t x = none) : TlbMiss t x := by
  unfold tlbLookup at h
  rw [Option.map_eq_none_iff, List.find?_eq_none] at h
  intro k hk hv he
  exact h k (List.mem_range.mpr hk) (by simp [hv, he])

theorem Maps.lookup {x : Nat} (h : Maps s x f) : ∃ e, tlbLookup s.tlb x = some e := by
  cases hl : tlbLookup s.tlb x with
  | some e => exact ⟨e, rfl⟩
  | none =>
    obtain ⟨k, hk, hv, hx, -⟩ := h
    exact absurd hx (tlbLookup_none hl k hk hv)

theorem Good.lookup {as : AddrSpace} {x : Nat} {e : TlbEntry} (h : Good G own fl s) (hv : G.view = some as.view)
    (he : tlbLookup s.tlb x = some e) :
    ∃ r w f, as.view x = some (r, w) ∧ s.cm.InRange f ∧ own f = .user r ∧
      ∀ y, G.abs r = some y → SamePage (s.mem (e.ppage / pageSize)) y := by
  obtain ⟨k, hk, rfl, hval, rfl⟩ := tlbLookup_some he
  obtain ⟨-, r, w, f, hm, hf, hu, hp, -⟩ := (h.tlb _ hv).entry k hk hval
  refine ⟨r, w, f, hm, hf, hu, fun y hy => ?_⟩
  obtain ⟨sl, hc⟩ := h.core
  rw [hp, Nat.mul_div_cancel f (by decide)]
  exact h.data.resident r y f (hc.pg.user f r hf hu).1 hy hf hu

/-! ## Reading a page -/

theorem copycheck_page {x : Nat} (hx : x % pageSize = 0) (hlt : x < 2 ^ 32) :
    copycheck x pageSize = decide (x < userTop) := by
  have htop : u32 (x + pageSize - 1) = x + pageSize - 1 := by
    apply u32_of_lt
    unfold pageSize at *
    omega
  unfold copycheck
  rw [htop]
  unfold pageSize userTop mipsKseg0 at *
  by_cases h : x < 0x80000000
  · have h1 : ¬ x + 4096 - 1 < x := by omega
    have h2 : ¬ 0x80000000 ≤ x := by omega
    have h3 : ¬ 0x80000000 ≤ x + 4096 - 1 := by omega
    simp only [h, h1, h2, h3, decide_false, decide_true, Bool.not_false, Bool.and_self]
  · have h2 : 0x80000000 ≤ x := by omega
    simp [h, h2]

section
variable {old : AddrSpace} {file : List UInt8} {x resid : Nat} (h : Good G own fl s) (hk : KernOk own s.cm)
  (hh : HalfAtClock own s.cm) (hs : SpaceOk old) (hlive : ∀ q ∈ old.pages, G.live q) (hx : x % pageSize = 0)
  (hlt : x < 2 ^ 32)
  (hload : ∀ i q w, asGetSegment old x = some i → old.view x = some (q, w) → G.abs q ≠ none → ∀ frame e data,
    loadSegmentPage file x (old.segments i) frame resid = .ok (e, data) → SamePage data (G.img q))
include h hk hh hs hlive hx hlt hload

theorem copyinPage_good (hview : ∀ m, G.view = some m → m = old.view) :
    Post (copyinPage s old file x resid)
      (fun r => ∃ own' fl', Good G own' fl' r.2 ∧ KernOk own' r.2.cm ∧ PagesOnly G own s own' r.2 ∧
        (r.1 = none → userTop ≤ x) ∧
        ∀ data, r.1 = some data → ∀ q w y, G.view ≠ none → old.view x = some (q, w) → G.abs q = some y →
          SamePage data y)
      (NoSlotLeft G.live) := by
  have hand : x &&& pageFrame = x := (and_pageFrame_eq_iff hlt).mpr hx
  have hvw : G.view ≠ none → G.view = some old.view := fun hne => by
    obtain ⟨m, hm⟩ := Option.ne_none_iff_exists'.mp hne
    rw [hm, hview m hm]
  -- what is read is what the TLB says
  have hread : ∀ {own' fl' s' e}, Good G own' fl' s' → tlbLookup s'.tlb x = some e → ∀ data,
      some (s'.mem (e.ppage / pageSize)) = some data → ∀ q w y, G.view ≠ none → old.view x = some (q, w) →
        G.abs q = some y → SamePage data y := by
    intro own' fl' s' e hg he data hdata q w y hne hq hy
    obtain ⟨r, w', f, hr, -, -, hsame⟩ := hg.lookup (hvw hne) he
    obtain ⟨rfl, rfl⟩ : q = r ∧ w = w' := by simpa [hq] using hr
    rw [← Option.some.inj hdata]
    exact hsame y hy
  unfold copyinPage
  rw [copycheck_page hx hlt]
  by_cases hut : x < userTop
  · simp only [hut, decide_true, if_true]
    cases hl : tlbLookup s.tlb x with
    | some e =>
      exact ⟨own, fl, h, hk, PagesOnly.refl G own s, by simp, hread h hl⟩
    | none =>
      have hmiss : ∀ m, G.view = some m → m = old.view ∧ TlbMiss s.tlb (x &&& pageFrame) := fun m hm =>
        ⟨hview m hm, by rw [hand]; exact tlbLookup_none hl⟩
      have hfault := vmFault_good .read h hk hh hs hlive hmiss
        (by rw [hand]; exact fun i q w hi hq ha _ _ => hload i q w hi hq ha)
      rw [hand] at hfault
      refine (hfault.mono (fun _ hr => hr) fun c hc => ?_).bind ?_
      · rcases hc with ⟨hw, -⟩ | ⟨i, q, w, -, -, -, (⟨-, hfull⟩ | ⟨hw, -⟩ | ⟨hw, -⟩) | ⟨-, -, frame, he⟩⟩
        · exact .of_ne (by rw [hw]; simp)
        · exact fun _ => hfull
        · exact .of_ne (by rw [hw]; simp)
        · exact .of_ne (by rw [hw]; simp)
        · exact .of_ne (by rw [loadSegmentPage_error he]; simp)
      · rintro ⟨res, s'⟩ - (⟨rfl, hf⟩ | ⟨rfl, q, w, hq, hin⟩)
        · -- an invalid address ends the thread
          cases res with
          | handled => exact absurd hf faultSegment_ne_handled
          | exit => exact .of_ne (by simp)
          | failed e => exact .of_ne (by simp)
        · obtain ⟨own', fl', f, hg', hk', hpo, -, -, hmaps⟩ := hin
          obtain ⟨e, he⟩ := hmaps.lookup
          simp only [he]
          exact ⟨own', fl', hg', hk', hpo, by simp, hread hg' he⟩
  · simp only [hut, decide_false, Bool.false_eq_true, if_false]
    exact ⟨own, fl, h, hk, PagesOnly.refl G own s, fun _ => Nat.le_of_not_lt hut, (by simp)⟩

end

end Os161
