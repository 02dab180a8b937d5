import Os161.PageInSound
import Os161.Vmsys

/-!
# Pages that come and go

A new page table brings pages that are nowhere; teardown gives back the frame
or the slot of each page of a space.
-/

namespace Os161

open Linked Outcome

variable {G G' : Ghost} {live : PdPtr → Prop} {own : Nat → Owner} {fl sl : List Nat} {s s' : Vm} {f : Nat} {p : PdPtr}

/-! ## New pages -/

structure Blank (d : PageDetail) : Prop where
  pfn : d.pfn = -1
  sfn : d.sfn = -1
  valid : d.valid = false
  aligned : d.vaddr &&& pageFrame = d.vaddr

structure Ghost.Adds (G G' : Ghost) (P : PdPtr → Prop) : Prop where
  live : ∀ q, G'.live q ↔ G.live q ∨ P q
  view : G'.view = G.view
  abs : ∀ q, G.live q → G'.abs q = G.abs q
  img : ∀ q, G.live q → G'.img q = G.img q
  vaddr : ∀ q, G.live q → G'.vaddr q = G.vaddr q
  dirty : ∀ q, G.live q → G'.dirty q = G.dirty q

theorem Good.adopt {P : PdPtr → Prop} (h : Good G own fl s) (ha : G.Adds G' P) (hnew : ∀ q, P q → ¬ G.live q)
    (hblank : ∀ q, P q → Blank (s.pds q))
    (hfix : ∀ q, P q → (s.pds q).vaddr = G'.vaddr q ∧ (s.pds q).dirty = G'.dirty q)
    (himg : ∀ q x, P q → G'.abs q = some x → SamePage (G'.img q) x) : Good G' own fl s := by
  obtain ⟨sl, hc⟩ := h.core
  have huser : ∀ g q, s.cm.InRange g → own g = .user q → ¬ P q := fun g q hg e hP =>
    hnew q hP (hc.pg.user g q hg e).1
  refine ⟨⟨sl, hc.cm, ⟨fun g q hg e => ?_, fun q hq hno => ?_, fun q hq => ?_⟩, ?_⟩, fun m hm => ?_,
    ⟨fun q x g hq hx hg e => ?_, fun q x n hq hx hn => ?_, fun q x hq hx hcase => ?_⟩, fun q hq => ?_⟩
  · have := hc.pg.user g q hg e
    exact ⟨(ha.live q).mpr (Or.inl this.1), this.2⟩
  · rcases (ha.live q).mp hq with hl | hP
    · exact hc.pg.away q hl hno
    · exact ⟨(hblank q hP).pfn, (hblank q hP).valid⟩
  · rcases (ha.live q).mp hq with hl | hP
    · exact hc.pg.aligned q hl
    · exact (hblank q hP).aligned
  · refine hc.sw.congr rfl rfl rfl (fun q hq => ?_) fun q hq => Or.inr ⟨(ha.live q).mpr (Or.inl hq), rfl⟩
    rcases (ha.live q).mp hq with hl | hP
    · exact Or.inr ⟨hl, rfl, rfl⟩
    · exact Or.inl (hblank q hP).sfn
  · obtain ⟨h1, h2, h3, h4⟩ := h.tlb m (ha.view ▸ hm)
    exact ⟨h1, h2, h3, fun v q w hvq => ⟨(ha.live q).mpr (Or.inl (h4 v q w hvq).1), (h4 v q w hvq).2⟩⟩
  · rcases (ha.live q).mp hq with hl | hP
    · exact h.data.resident q x g hl (ha.abs q hl ▸ hx) hg e
    · exact absurd hP (huser g q hg e)
  · rcases (ha.live q).mp hq with hl | hP
    · exact h.data.swapped q x n hl (ha.abs q hl ▸ hx) hn
    · rw [(hblank q hP).sfn] at hn; omega
  · rcases (ha.live q).mp hq with hl | hP
    · rw [ha.img q hl]
      exact h.data.file q x hl (ha.abs q hl ▸ hx) hcase
    · exact himg q x hP hx
  · rcases (ha.live q).mp hq with hl | hP
    · rw [ha.vaddr q hl, ha.dirty q hl]
      exact h.fixed q hl
    · exact hfix q hP

theorem Good.setPds (h : Good G own fl s) (pds : PdPtr → PageDetail) (he : ∀ q, G.live q → pds q = s.pds q) :
    Good G own fl { s with pds := pds } := by
  obtain ⟨sl, hc⟩ := h.core
  refine h.congr hc.cm (fun _ => Iff.rfl) (fun _ _ => Iff.rfl) (fun _ => rfl) (fun q hq => ?_) (fun _ _ _ _ => rfl) rfl
    fun m hm => (h.tlb m hm).congr (fun _ => Iff.rfl) (fun _ _ => Iff.rfl) rfl fun q hq => ?_
  · show SameDetail (s.pds q) (pds q)
    rw [he q hq]
    exact SameDetail.refl _
  · show (pds q).vaddr = _
    rw [he q hq]

/-! ## Pages that go -/

def Ghost.drop (G : Ghost) (l : List PdPtr) : Ghost := { G with live := fun q => G.live q ∧ q ∉ l }

theorem Good.dropView (h : Good G own fl s) : Good { G with view := none } own fl s :=
  ⟨h.core, fun _ hm => (by cases hm), ⟨h.data.resident, h.data.swapped, h.data.file⟩, h.fixed⟩

theorem PagesOnly.refl (G : Ghost) (own : Nat → Owner) (s : Vm) : PagesOnly G own s own s :=
  ⟨rfl, rfl, fun _ _ => ⟨rfl, rfl, rfl⟩, fun _ _ => rfl, fun _ _ => SameDetail.refl _⟩

theorem PagesOnly.mono {own' : Nat → Owner} (h : PagesOnly G own s own' s') (hl : ∀ q, G.live q → G'.live q) :
    PagesOnly G' own s own' s' :=
  ⟨h.size, h.lowest, h.held, h.back, fun q hq => h.other q fun hl' => hq (hl q hl')⟩

theorem Good.dropPage {own' : Nat → Owner} {fl' sl' : List Nat} (h : Good G own fl s) (hpds : s'.pds = s.pds)
    (hmem : s'.mem = s.mem) (htlb : s'.tlb = s.tlb) (hcm : CmOk own' fl' s'.cm)
    (hr : ∀ g, s'.cm.InRange g ↔ s.cm.InRange g) (hpd : ∀ g, (s'.cm.coreDetails g).pd = (s.cm.coreDetails g).pd)
    (hu : ∀ g q, s.cm.InRange g → (own' g = .user q ↔ own g = .user q ∧ q ≠ p)) (hw : s'.swap.data = s.swap.data)
    (hsw : SwOk (G.drop [p]).live sl' s') (hview : ∀ m, G.view = some m → ∀ v q w, m v = some (q, w) → q ≠ p) :
    Good (G.drop [p]) own' fl' s' := by
  obtain ⟨sl, hc⟩ := h.core
  have hlive : ∀ q, (G.drop [p]).live q ↔ G.live q ∧ q ≠ p := fun q => by simp [Ghost.drop]
  have haway : ∀ q, q ≠ p → (∀ g, s'.cm.InRange g → own' g ≠ .user q) → ∀ g, s.cm.InRange g → own g ≠ .user q :=
    fun q hqp hno g hg e => hno g ((hr g).mpr hg) ((hu g q hg).mpr ⟨e, hqp⟩)
  refine ⟨⟨sl', hcm, ⟨fun g q hg e => ?_, fun q hq hno => ?_, fun q hq => ?_⟩, hsw⟩, fun m hm => ?_,
    ⟨fun q x g hq hx hg e => ?_, fun q x n hq hx hn => ?_, fun q x hq hx hcase => ?_⟩, fun q hq => ?_⟩
  · have hg := (hr g).mp hg
    obtain ⟨e, hqp⟩ := (hu g q hg).mp e
    obtain ⟨hl, h1, h2, h3⟩ := hc.pg.user g q hg e
    rw [hpd, hpds]
    exact ⟨(hlive q).mpr ⟨hl, hqp⟩, h1, h2, h3⟩
  · obtain ⟨hl, hqp⟩ := (hlive q).mp hq
    rw [hpds]
    exact hc.pg.away q hl (haway q hqp hno)
  · rw [hpds]
    exact hc.pg.aligned q ((hlive q).mp hq).1
  · obtain ⟨h1, h2, h3, h4⟩ := h.tlb m hm
    refine ⟨?_, by rw [htlb]; exact h2, by rw [htlb]; exact h3, fun v q w hvq => ?_⟩
    · rw [htlb]
      intro k hk hv
      obtain ⟨hlt, q, w, g, hvq, hg, e, hpp, hd⟩ := h1 k hk hv
      exact ⟨hlt, q, w, g, hvq, (hr g).mpr hg, (hu g q hg).mpr ⟨e, hview m hm _ q w hvq⟩, hpp, hd⟩
    · rw [hpds]
      exact ⟨(hlive q).mpr ⟨(h4 v q w hvq).1, hview m hm v q w hvq⟩, (h4 v q w hvq).2⟩
  · have hg := (hr g).mp hg
    rw [hmem]
    exact h.data.resident q x g ((hlive q).mp hq).1 hx hg ((hu g q hg).mp e).1
  · rw [hpds] at hn
    rw [hw]
    exact h.data.swapped q x n ((hlive q).mp hq).1 hx hn
  · obtain ⟨hl, hqp⟩ := (hlive q).mp hq
    rw [hpds] at hcase
    exact h.data.file q x hl hx (hcase.imp_right fun ⟨hno, hs⟩ => ⟨haway q hqp hno, hs⟩)
  · rw [hpds]
    exact h.fixed q ((hlive q).mp hq).1

section
variable (h : Good G own fl s) (hl : G.live p)
  (hview : ∀ m, G.view = some m → ∀ v q w, m v = some (q, w) → q ≠ p)
include h hl hview

theorem freePage_resident (hk : KernOk own s.cm) (hin : (s.pds p).pfn ≠ -1) :
    ∃ s' own', freePage s p = .ok s' ∧ (∃ fl', Good (G.drop [p]) own' fl' s') ∧ KernOk own' s'.cm ∧
      PagesOnly G own s own' s' ∧ s'.pds = s.pds := by
  obtain ⟨sl, hc⟩ := h.core
  obtain ⟨f, hr, hu, hpf, -⟩ := hc.pg.resident hl (Or.inl hin)
  have hsfn := hc.user_sfn hr hu
  have hs := freeFrameListAdd_same s.cm f
  have hkern := freeFrameListAdd_kern s.cm f
  have hcm := freeFrameListAdd_ok hc.cm hr (by rw [hu]; simp)
  have he : freePage s p = .ok { s with cm := freeFrameListAdd s.cm f } := by
    simp [freePage, hpf, hsfn, cmReleaseFrame, hr.1, bind, Except.bind]
  have huser : ∀ g q, s.cm.InRange g → (Function.update own f .free g = .user q ↔ own g = .user q ∧ q ≠ p) := by
    intro g q hg
    rcases eq_or_ne g f with rfl | hgf
    · rw [Function.update_self, hu]
      simp only [reduceCtorEq, Owner.user.injEq, false_iff, not_and, not_not]
      exact fun e => e.symm
    · rw [Function.update_of_ne hgf]
      refine ⟨fun e => ⟨e, ?_⟩, fun e => e.1⟩
      rintro rfl
      exact hgf (hc.pg.inj hg hr e hu)
  have hsw : SwOk (G.drop [p]).live sl { s with cm := freeFrameListAdd s.cm f } := by
    refine hc.sw.congr rfl rfl rfl (fun q hq => Or.inr ⟨hq.1, rfl, rfl⟩) fun q hq => ?_
    rcases eq_or_ne q p with rfl | hqp
    · exact Or.inl hsfn
    · exact Or.inr ⟨⟨hq, by simpa using hqp⟩, rfl⟩
  refine ⟨_, Function.update own f .free, he, ⟨_, h.dropPage rfl rfl rfl hcm hs.inRange hs.pd huser rfl hsw hview⟩, ?_,
    ?_, rfl⟩
  · refine hk.congr hs.inRange fun g _ => ?_
    rcases eq_or_ne g f with rfl | hgf
    · left
      rw [Function.update_self]
      show ((freeFrameListAdd s.cm g).coreDetails g).kern = 0
      rw [hkern, if_pos rfl]
    · exact Or.inr ⟨Function.update_of_ne hgf .., by rw [hkern, if_neg hgf], hs.pd g⟩
  · refine ⟨hs.size, hs.lowest, fun g hg => ?_, fun g hg => ?_, fun _ _ => SameDetail.refl _⟩
    · have hgf : g ≠ f := by rintro rfl; rw [hu] at hg; exact hg
      exact ⟨Function.update_of_ne hgf .., by rw [hkern, if_neg hgf], rfl⟩
    · have hgf : g ≠ f := by rintro rfl; rw [Function.update_self] at hg; exact hg
      exact Function.update_of_ne hgf ..

theorem freePage_away (haway : (s.pds p).pfn = -1) :
    ∃ s', freePage s p = .ok s' ∧ Good (G.drop [p]) own fl s' ∧ s'.cm = s.cm ∧ s'.pds = s.pds ∧ s'.mem = s.mem := by
  obtain ⟨sl, hc⟩ := h.core
  have huser : ∀ g q, s.cm.InRange g → (own g = .user q ↔ own g = .user q ∧ q ≠ p) := by
    intro g q hg
    refine ⟨fun e => ⟨e, ?_⟩, fun e => e.1⟩
    rintro rfl
    have := (hc.pg.user g q hg e).2.2.1
    rw [haway] at this; omega
  have hne : ∀ q, G.live q → q ≠ p → (G.drop [p]).live q := fun q hq hqp => ⟨hq, by simpa using hqp⟩
  rcases hc.sw.sfn p hl with hs | ⟨n, hn, hs, -, -⟩
  · have he : freePage s p = .ok s := by simp [freePage, haway, hs, bind, Except.bind]
    have hsw : SwOk (G.drop [p]).live sl s := by
      refine hc.sw.congr rfl rfl rfl (fun q hq => Or.inr ⟨hq.1, rfl, rfl⟩) fun q hq => ?_
      rcases eq_or_ne q p with rfl | hqp
      · exact Or.inl hs
      · exact Or.inr ⟨hne q hq hqp, rfl⟩
    exact ⟨s, he, h.dropPage rfl rfl rfl hc.cm (fun _ => Iff.rfl) (fun _ => rfl) huser rfl hsw hview, rfl, rfl, rfl⟩
  · have hlt : (0 : Int) ≤ n ∧ (n : Int) < swapPages := by omega
    have hnm : (n : Int) ≠ -1 := by omega
    have he : freePage s p = .ok { s with swap := pushed s.swap n } := by
      simp [freePage, haway, hs, hnm, swapFreePage, swapPush, hn, pushed, bind, Except.bind]
    refine ⟨_, he, h.dropPage rfl rfl rfl hc.cm (fun _ => Iff.rfl) (fun _ => rfl) huser rfl
      (hc.sw.push hl hs rfl rfl rfl (fun q hq => Or.inr ⟨by simpa using hq.2, hq.1, rfl, rfl⟩) fun q hq hqp =>
        Or.inr ⟨hne q hq hqp, rfl⟩) hview, rfl, rfl, rfl⟩

theorem freePage_good (hk : KernOk own s.cm) : ∃ s' own', freePage s p = .ok s' ∧
    (∃ fl', Good (G.drop [p]) own' fl' s') ∧ KernOk own' s'.cm ∧ PagesOnly G own s own' s' ∧ s'.pds = s.pds := by
  by_cases hin : (s.pds p).pfn = -1
  · obtain ⟨s', he, hg, hcm, hpds, hmem⟩ := freePage_away h hl hview hin
    refine ⟨s', own, he, ⟨fl, hg⟩, by rw [hcm]; exact hk,
      ⟨by rw [hcm], by rw [hcm], fun g _ => ⟨rfl, by rw [hcm], by rw [hmem]⟩, fun _ _ => rfl, fun q _ => ?_⟩, hpds⟩
    rw [hpds]
    exact SameDetail.refl _
  · exact freePage_resident h hl hview hk hin

end

theorem Ghost.drop_cons (G : Ghost) (p : PdPtr) (l : List PdPtr) : (G.drop [p]).drop l = G.drop (p :: l) := by
  unfold Ghost.drop
  congr 1
  funext q
  simp only [List.mem_cons, not_or, List.not_mem_nil, not_false_eq_true, and_true, and_assoc]

theorem freePages_good {l : List PdPtr} (h : Good G own fl s) (hk : KernOk own s.cm) (hnd : l.Nodup)
    (hl : ∀ q ∈ l, G.live q) (hview : ∀ m, G.view = some m → ∀ v q w, m v = some (q, w) → q ∉ l) :
    ∃ s' own', freePages l s = .ok s' ∧ (∃ fl', Good (G.drop l) own' fl' s') ∧ KernOk own' s'.cm ∧
      PagesOnly G own s own' s' ∧ s'.pds = s.pds := by
  induction l generalizing G own fl s with
  | nil =>
    refine ⟨s, own, rfl, ⟨fl, ?_⟩, hk, PagesOnly.refl G own s, rfl⟩
    have : G.drop [] = G := by simp [Ghost.drop]
    rwa [this]
  | cons p l ih =>
    obtain ⟨hp, hnd⟩ := List.nodup_cons.mp hnd
    obtain ⟨s₁, own₁, he₁, ⟨fl₁, hg₁⟩, hk₁, hpo₁, hpds₁⟩ := freePage_good h (hl p (List.mem_cons_self ..))
      (fun m hm v q w hvq e => hview m hm v q w hvq (e ▸ List.mem_cons_self ..)) hk
    obtain ⟨s', own', he, hg', hk', hpo, hpds⟩ := ih hg₁ hk₁ hnd
      (fun q hq => ⟨hl q (List.mem_cons_of_mem _ hq), by
        rw [List.mem_singleton]; rintro rfl; exact hp hq⟩)
      fun m hm v q w hvq hq => hview m hm v q w hvq (List.mem_cons_of_mem _ hq)
    rw [Ghost.drop_cons] at hg'
    refine ⟨s', own', ?_, hg', hk', hpo₁.trans (hpo.mono fun q hq => hq.1), hpds.trans hpds₁⟩
    simp only [freePages, he₁, bind, Except.bind]
    exact he

end Os161
