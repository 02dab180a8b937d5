import Os161.CopyinSound

/-!
# One round of the copy loop

A round of `as_copy_segments` takes a frame for the new page, reads the old
one while the frame is in flight, and finishes the new page.
-/

namespace Os161

open Linked Outcome

variable {G : Ghost} {own own' : Nat → Owner} {fl fl' : List Nat} {runs : List (Nat × Nat)} {v v' : Vm} {f x : Nat}
  {p q r : PdPtr} {old : AddrSpace} {file : List UInt8} {resid : Nat}

/-! ## A round -/

def copied (old : AddrSpace) (abs : PdPtr → Option Page) (dirty : Bool) (q : PdPtr) (x : Nat) : Option Page :=
  if dirty then (old.view x).bind fun r => abs r.1 else abs q

def Ghost.fork (G : Ghost) (old : AddrSpace) (q p : PdPtr) : Ghost where
  live r := G.live r ∨ r = p
  view := G.view
  abs := Function.update G.abs p (copied old G.abs (G.dirty q) q (G.vaddr q))
  img := Function.update G.img p (G.img q)
  vaddr := Function.update G.vaddr p (G.vaddr q)
  dirty := Function.update G.dirty p (G.dirty q)

theorem Ghost.fork_adds (hp : ¬ G.live p) : G.Adds (G.fork old q p) (· = p) := by
  have hne : ∀ r, G.live r → r ≠ p := fun r hr => by rintro rfl; exact hp hr
  exact ⟨fun _ => Iff.rfl, rfl, fun r hr => Function.update_of_ne (hne r hr) ..,
    fun r hr => Function.update_of_ne (hne r hr) ..,
    fun r hr => Function.update_of_ne (hne r hr) .., fun r hr => Function.update_of_ne (hne r hr) ..⟩

theorem Ghost.add_eq_fork {pds : PdPtr → PageDetail} (hv : (pds p).vaddr = G.vaddr q) (hd : (pds p).dirty = G.dirty q) :
    G.add [p] (fun _ => copied old G.abs (G.dirty q) q (G.vaddr q)) (fun _ => G.img q) pds = G.fork old q p := by
  simp only [Ghost.add, Ghost.fork, List.mem_singleton, Ghost.mk.injEq, true_and]
  refine ⟨?_, ?_, ?_, ?_⟩ <;> funext r <;> rcases eq_or_ne r p with rfl | hr <;> simp [*]

structure Forkable (G : Ghost) (old : AddrSpace) (file : List UInt8) : Prop where
  ok : SpaceOk old
  live : ∀ q ∈ old.pages, G.live q
  page : ∀ i p, old.Has i p → G.vaddr p = (ptEntry (old.segments i) p.idx).vaddr ∧
    G.dirty p = ((old.segments i).writeable != 0) ∧ G.img p = segImage file (old.segments i) p.idx
  view : ∀ m, G.view = some m → m = old.view
  known : G.view = none → ∀ q, G.abs q = none

structure NewPage (G : Ghost) (v : Vm) (q p : PdPtr) : Prop where
  old : G.live q
  new : ¬ G.live p
  sfn : (v.pds p).sfn = -1
  vaddr : (v.pds p).vaddr = G.vaddr q
  dirty : (v.pds p).dirty = G.dirty q

theorem copyPage_clean (old : AddrSpace) (file : List UInt8) (resid : Nat) (hi : Idle G own runs v)
    (hn : NewPage G v q p) (hd : (v.pds q).dirty = false) :
    ∃ v', copyPage v true old file q p resid = .ok v' ∧ Idle (G.fork old q p) own runs v' ∧ v'.cm = v.cm ∧
      v'.mem = v.mem ∧ ∀ r, r ≠ p → v'.pds r = v.pds r := by
  obtain ⟨fl, hg⟩ := hi.good
  have hq := hg.fixed q hn.old
  have hne : ∀ r, G.live r → r ≠ p := fun r hr => by rintro rfl; exact hn.new hr
  obtain ⟨sl, hc⟩ := hg.core
  let v' := v.modifyPd p fun d => { d with use := false, pfn := -1, valid := false, sfn := -1 }
  have hgood : Good (G.fork old q p) own fl v' := by
    refine (hg.setPds v'.pds fun r hr => Vm.modifyPd_of_ne (hne r hr)).adopt (Ghost.fork_adds hn.new) ?_ ?_ ?_ ?_
    · rintro r rfl
      exact hn.new
    · rintro r rfl
      show Blank (v'.pds r)
      simp only [v', Vm.modifyPd_self]
      exact ⟨rfl, rfl, rfl, by simp only [hn.vaddr, ← hq.1]; exact hc.pg.aligned q hn.old⟩
    · rintro r rfl
      simp only [v', Vm.modifyPd_self, Ghost.fork, Function.update_self]
      exact ⟨hn.vaddr, hn.dirty⟩
    · rintro r y rfl hy
      simp only [Ghost.fork, Function.update_self, copied, ← hq.2, hd, Bool.false_eq_true, if_false] at hy ⊢
      exact hg.data.file q y hn.old hy (Or.inl hd)
  refine ⟨v', by simp [copyPage, hd, v'], ⟨⟨fl, hgood⟩, hi.kern, hi.calm, hi.runs⟩, rfl, rfl,
    fun r hr => Vm.modifyPd_of_ne hr⟩

structure InFlight (own : Nat → Owner) (v s : Vm) (p : PdPtr) (f : Nat) : Prop where
  inRange : v.cm.InRange f
  owner : ¬ (own f).Held
  size : s.cm.size = v.cm.size
  lowest : s.cm.lowestFrame = v.cm.lowestFrame
  kern : ∀ g, g ≠ f → (s.cm.coreDetails g).kern = (v.cm.coreDetails g).kern
  mem : s.mem = v.mem
  details : ∀ r, r ≠ p → own f ≠ .user r → SameDetail (v.pds r) (s.pds r)
  page : s.pds p = { v.pds p with pfn := f, valid := true, use := (s.pds p).use }

theorem Gives.inFlight {s₂ : Vm}
    (h : Gives own fl (v.modifyPd p fun d => { d with use := false, valid := true }) fl' s₂ f) (hp : own f ≠ .user p) :
    InFlight own v (s₂.modifyPd p fun d => { d with pfn := f }) p f where
  inRange := h.inRange
  owner hheld := by
    rcases h.way with ⟨-, e, -⟩ | ⟨-, -, -, ⟨q, e⟩, -⟩ <;> rw [e] at hheld <;> exact hheld
  size := h.size
  lowest := h.lowest
  kern := h.kern
  mem := h.mem
  details r hr hf := by
    have := h.details r hf
    rwa [Vm.modifyPd_of_ne hr] at this ⊢
  page := by
    have := h.details p hp
    rw [Vm.modifyPd_self] at this ⊢
    rw [this]

section
variable {s₃ s₄ : Vm} {own₄ : Nat → Owner} {fl₄ : List Nat} {d : Page} (hi : Idle G own runs v) (hn : NewPage G v q p)
  (hw : InFlight own v s₃ p f) (hpo : PagesOnly G (Function.update own f .busy) s₃ own₄ s₄)
include hi hw hpo

theorem InFlight.pagesOnly : PagesOnly (G.fork old q p) own v (Function.update own₄ f (.user p))
    (cmFinishPaging ({ s₄ with mem := Function.update s₄.mem f d } : Vm) f p) := by
  obtain ⟨fl, hg⟩ := hi.good
  obtain ⟨sl, hc⟩ := hg.core
  refine ⟨hpo.size.trans hw.size, hpo.lowest.trans hw.lowest, fun g hheld => ?_, fun g hheld => ?_, fun r hr => ?_⟩
  · have hgf : g ≠ f := by rintro rfl; exact hw.owner hheld
    obtain ⟨e, hkern, hmem⟩ := hpo.held g (by rw [Function.update_of_ne hgf]; exact hheld)
    rw [Function.update_of_ne hgf] at e ⊢
    refine ⟨e, ?_, ?_⟩
    · simp only [cmFinishPaging, Cm.modify_of_ne hgf, Vm.modifyPd_cm]
      rw [hkern, hw.kern g hgf]
    · simp only [cmFinishPaging, Vm.modifyPd_mem, Function.update_of_ne hgf]
      rw [hmem, hw.mem]
  · have hgf : g ≠ f := by rintro rfl; rw [Function.update_self] at hheld; exact hheld
    rw [Function.update_of_ne hgf] at hheld ⊢
    have e := hpo.back g hheld
    rwa [Function.update_of_ne hgf] at e
  · simp only [Ghost.fork, not_or] at hr
    have hfr : own f ≠ .user r := fun e => hr.1 (hc.pg.user f r hw.inRange e).1
    have := (hw.details r hr.2 hfr).trans (hpo.other r hr.1)
    simpa only [cmFinishPaging, Vm.modifyPd_of_ne hr.2] using this

include hn

theorem InFlight.finish (hd : G.dirty q = true) (hg₄ : Good G own₄ fl₄ s₄) (hk₄ : KernOk own₄ s₄.cm)
    (hx : ∀ y, copied old G.abs (G.dirty q) q (G.vaddr q) = some y → SamePage d y) :
    pdFrame ({ s₄ with mem := Function.update s₄.mem f d } : Vm) p = .ok f ∧
      Idle (G.fork old q p) (Function.update own₄ f (.user p)) runs
        (cmFinishPaging ({ s₄ with mem := Function.update s₄.mem f d } : Vm) f p) := by
  obtain ⟨fl, hg⟩ := hi.good
  obtain ⟨sl, hc⟩ := hg.core
  obtain ⟨sl₄, hc₄⟩ := hg₄.core
  have hal := hc.pg.aligned q hn.old
  rw [(hg.fixed q hn.old).1] at hal
  have hp : SameDetail (s₃.pds p) (s₄.pds p) := hpo.other p hn.new
  have hpage : (s₄.pds p).sfn = -1 ∧ (s₄.pds p).vaddr = G.vaddr q ∧ (s₄.pds p).dirty = G.dirty q ∧
      (s₄.pds p).pfn = f := by
    rw [hp, hw.page]
    exact ⟨hn.sfn, hn.vaddr, hn.dirty, rfl⟩
  have hr₄ : s₄.cm.InRange f := by
    have := hw.inRange
    unfold Cm.InRange at this ⊢
    rwa [hpo.size, hpo.lowest, hw.size, hw.lowest]
  have hb₄ : own₄ f = .busy := by
    rw [(hpo.held f (by rw [Function.update_self]; trivial)).1, Function.update_self]
  have hg₅ : Good G own₄ fl₄ ({ s₄ with mem := Function.update s₄.mem f d } : Vm) := by
    refine hg₄.congr hc₄.cm (fun _ => Iff.rfl) (fun _ _ => Iff.rfl) (fun _ => rfl) (fun _ _ => SameDetail.refl _)
      (fun g r _ e => ?_) rfl fun m hm => (hg₄.tlb m hm).congr (fun _ => Iff.rfl)
      (fun _ _ => Iff.rfl) rfl fun _ _ => rfl
    exact Function.update_of_ne (by rintro rfl; rw [hb₄] at e; cases e) ..
  have hfin : Good (G.fork old q p) (Function.update own₄ f (.user p)) fl₄
      (cmFinishPaging ({ s₄ with mem := Function.update s₄.mem f d } : Vm) f p) := by
    rw [← Ghost.add_eq_fork hpage.2.1 hpage.2.2.1]
    refine hg₅.finish hr₄ hb₄ hn.new hpage.1 (by simp only [hpage.2.1]; exact hal)
      (fun _ => hpage.2.2.1.trans hd) fun y hy => ?_
    simp only [Function.update_self]
    exact hx y hy
  have hwin : PagesOnly (G.fork old q p) own v (Function.update own₄ f (.user p))
      (cmFinishPaging ({ s₄ with mem := Function.update s₄.mem f d } : Vm) f p) := hw.pagesOnly hi hpo
  exact ⟨pdFrame_eq hpage.2.2.2, hi.pagesOnly ⟨fl₄, hfin⟩ (cmFinishPaging_kernOk hk₄) hwin⟩

end

theorem copyPage_dirty (hi : Idle G own runs v) (hf : Forkable G old file) (hn : NewPage G v q p)
    (hd : (v.pds q).dirty = true) (hload : ∀ r w, old.view (G.vaddr q) = some (r, w) → G.abs r ≠ none →
      LoadGood old file (G.vaddr q) resid) :
    Post (copyPage v true old file q p resid)
      (fun v' => ∃ own', Idle (G.fork old q p) own' runs v' ∧ PagesOnly (G.fork old q p) own v own' v')
      (NoSlotLeft G.live) := by
  obtain ⟨fl, hg⟩ := hi.good
  obtain ⟨sl, hc⟩ := hg.core
  obtain ⟨hqv, hqd⟩ := hg.fixed q hn.old
  have hal := hc.pg.aligned q hn.old
  rw [hqv] at hal
  have hlt : G.vaddr q < 2 ^ 32 := hal ▸ and_pageFrame_lt _
  have hmod := (and_pageFrame_eq_iff hlt).mp hal
  have hne : ∀ r, G.live r → r ≠ p := fun r hr => by rintro rfl; exact hn.new hr
  have hg₁ : Good G own fl (v.modifyPd p fun d => { d with use := false, valid := true }) :=
    hg.setPds _ fun r hr => Function.update_of_ne (hne r hr) ..
  unfold copyPage
  simp only [hd, if_true]
  refine ((cmGetppage_good hg₁ hi.kern hi.halfAtClock).mono (fun _ hr => hr) fun c hc => ?_).bind ?_
  · rcases hc with ⟨-, hfull⟩ | ⟨hw, -⟩ | ⟨hw, -⟩
    · exact fun _ => hfull
    · exact .of_ne (by rw [hw]; simp)
    · exact .of_ne (by rw [hw]; simp)
  rintro ⟨f, s₂⟩ - ⟨fl₂, hg₂, hk₂, hgive⟩
  dsimp only at hg₂ hk₂ hgive
  have hw := hgive.inFlight fun e => hn.new (hc.pg.user f p hgive.inRange e).1
  have hg₃ : Good G (Function.update own f .busy) fl₂ (s₂.modifyPd p fun d => { d with pfn := f }) :=
    hg₂.setPds _ fun r hr => Function.update_of_ne (hne r hr) ..
  have hh₃ : HalfAtClock (Function.update own f .busy) (s₂.modifyPd p fun d => { d with pfn := f }).cm := by
    rintro g ⟨hgr, hb, h0⟩
    rcases eq_or_ne g f with rfl | hgf
    · rcases hgive.way with ⟨-, -, h1, -⟩ | ⟨-, -, -, -, -, -, hclock⟩
      · simp only [Vm.modifyPd_cm] at h0
        omega
      · exact hclock
    · rw [Function.update_of_ne hgf] at hb
      exact absurd hb (hi.calm g)
  have hk₃ : KernOk (Function.update own f .busy) (s₂.modifyPd p fun d => { d with pfn := f }).cm := hk₂
  simp only [Bool.true_eq_false, if_false]
  rw [show ((s₂.modifyPd p fun d => { d with pfn := f }).pds p).vaddr = G.vaddr q by rw [hw.page]; exact hn.vaddr]
  generalize (s₂.modifyPd p fun d => { d with pfn := f }) = s₃ at *
  refine ((copyinPage_good hg₃ hk₃ hh₃ hf.ok hf.live hmod hlt (fun i r w hgs hr ha frame e data he => ?_)
    hf.view).mono (fun _ hr => hr) fun c hc => hc).bind ?_
  · obtain ⟨i', hgs', hp', -⟩ := view_has hf.ok hr
    obtain rfl := Option.some.inj (hgs.symm.trans hgs')
    rw [(hf.page _ _ hp').2.2]
    exact (hload r w hr ha).same hf.ok hmod hgs hr he
  rintro ⟨data, s₄⟩ - ⟨own₄, fl₄, hg₄, hk₄, hpo, hnone, hdata⟩
  dsimp only at hg₄ hk₄ hpo hnone hdata ⊢
  have hdq : G.dirty q = true := by rw [← hqd, hd]
  -- whatever bytes end up in the frame
  have tail : ∀ d, (∀ d', data = some d' → d = d') →
      Post (pdFrame ({ s₄ with mem := Function.update s₄.mem f d } : Vm) p >>= fun frame =>
          .ok (cmFinishPaging ({ s₄ with mem := Function.update s₄.mem f d } : Vm) frame p))
        (fun v' => ∃ own', Idle (G.fork old q p) own' runs v' ∧ PagesOnly (G.fork old q p) own v own' v')
        (NoSlotLeft G.live) := by
    intro d hd'
    obtain ⟨hpf, hidle⟩ := hw.finish (d := d) hi hn hpo hdq hg₄ hk₄ fun y hy => by
      rw [copied, if_pos hdq, Option.bind_eq_some_iff] at hy
      obtain ⟨⟨r, w⟩, hr, hy⟩ := hy
      have hv : G.view ≠ none := fun e => by rw [hf.known e] at hy; cases hy
      have hut := asValidAddr_lt (view_eq_some.mp hr).2.1
      cases hdt : data with
      | none => exact absurd hut (Nat.not_lt.mpr (hnone hdt))
      | some d' => rw [hd' d' hdt]; exact hdata d' hdt r w y hv hr hy
    rw [hpf, ok_bind]
    exact ⟨_, hidle, hw.pagesOnly hi hpo⟩
  cases data with
  | none =>
    have := tail (s₄.mem f) fun _ h => by cases h
    rwa [Function.update_eq_self] at this
  | some d => exact tail d fun _ h => Option.some.inj h

theorem copyPage_good (hi : Idle G own runs v) (hf : Forkable G old file) (hn : NewPage G v q p)
    (hload : (∃ r, G.abs r ≠ none) → LoadGood old file (G.vaddr q) resid) :
    Post (copyPage v true old file q p resid)
      (fun v' => ∃ own', Idle (G.fork old q p) own' runs v' ∧ PagesOnly (G.fork old q p) own v own' v')
      (NoSlotLeft G.live) := by
  cases hd : (v.pds q).dirty with
  | true => exact copyPage_dirty hi hf hn hd fun r w _ hr => hload ⟨r, hr⟩
  | false =>
    obtain ⟨v', he, hi', hcm, hmem, hother⟩ := copyPage_clean old file resid hi hn hd
    rw [he]
    refine ⟨own, hi', ⟨by rw [hcm], by rw [hcm], fun g _ => ⟨rfl, by rw [hcm], by rw [hmem]⟩, fun g _ => rfl,
      fun r hr => ?_⟩⟩
    rw [hother r fun e => hr (Or.inr e)]
    exact SameDetail.refl _

end Os161
