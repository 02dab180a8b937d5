import Os161.ClockSound

/-!
# Runs of kernel frames

`cm_request_kframes` marks a run, then takes each of its frames off the free
list or away from its page. `cm_release_kframes` puts back as many frames as
the first one's `kern` says.
-/

namespace Os161

open Linked Outcome

def setOwn (own : Nat → Owner) (l : List Nat) (o : Owner) : Nat → Owner := fun g => if g ∈ l then o else own g

@[simp] theorem setOwn_nil (own : Nat → Owner) (o : Owner) : setOwn own [] o = own := by
  funext g; simp [setOwn]

theorem setOwn_cons (own : Nat → Owner) (i : Nat) (l : List Nat) (o : Owner) :
    setOwn own (i :: l) o = setOwn (Function.update own i o) l o := by
  funext g
  simp only [setOwn, List.mem_cons, Function.update_apply]
  by_cases h : g ∈ l <;> simp [h]

theorem setOwn_of_mem {own : Nat → Owner} {l : List Nat} {o : Owner} {g : Nat} (h : g ∈ l) : setOwn own l o g = o :=
  if_pos h

theorem setOwn_of_not_mem {own : Nat → Owner} {l : List Nat} {o : Owner} {g : Nat} (h : g ∉ l) :
    setOwn own l o g = own g := if_neg h

variable {G : Ghost} {own : Nat → Owner} {fl : List Nat} {s s' : Vm} {f n : Nat} {p : PdPtr}

/-! ## Finding and marking a run -/

theorem findKframes_some {c : Cm} (h : findKframes c n = some f) :
    c.lowestFrame ≤ f ∧ f + n ≤ c.size ∧ ∀ g, f ≤ g → g < f + n → (c.coreDetails g).kern = 0 := by
  unfold findKframes at h
  have hm := List.mem_range'_1.mp (List.mem_of_find?_eq_some h)
  have hall := List.find?_some h
  simp only [List.all_eq_true, List.mem_range, beq_iff_eq] at hall
  refine ⟨hm.1, by omega, fun g hg hlt => ?_⟩
  have := hall (g - f) (by omega)
  rwa [show f + (g - f) = g by omega] at this

theorem foldl_modify_kern (l : List Nat) (c : Cm) (g : Nat) :
    (l.foldl (fun c i => c.modify i fun d => { d with kern := 1 }) c).coreDetails g =
      if g ∈ l then { c.coreDetails g with kern := 1 } else c.coreDetails g := by
  induction l generalizing c with
  | nil => simp
  | cons i l ih =>
    rw [List.foldl_cons, ih, Cm.modify_coreDetails]
    by_cases h : g ∈ l <;> by_cases e : g = i <;> simp [h, e]

theorem foldl_modify_rest (l : List Nat) (c : Cm) :
    l.foldl (fun c i => c.modify i fun d => { d with kern := 1 }) c =
      { c with coreDetails := (l.foldl (fun c i => c.modify i fun d => { d with kern := 1 }) c).coreDetails } := by
  induction l generalizing c with
  | nil => rfl
  | cons i l ih => rw [List.foldl_cons, ih]; rfl

theorem markKframes_coreDetails (c : Cm) (f n g : Nat) :
    (markKframes c f n).coreDetails g =
      { c.coreDetails g with kern :=
          if g = f then n else if f ≤ g ∧ g < f + n then 1 else (c.coreDetails g).kern } := by
  unfold markKframes
  simp only [Cm.modify_coreDetails, foldl_modify_kern, List.mem_range'_1]
  by_cases e : g = f
  · subst e
    by_cases h : g < g + n <;> simp [h]
  · by_cases h : f ≤ g ∧ g < f + n <;> simp [e, h]

theorem markKframes_rest (c : Cm) (f n : Nat) :
    markKframes c f n = { c with coreDetails := (markKframes c f n).coreDetails } := by
  unfold markKframes
  rw [foldl_modify_rest]
  rfl

theorem markKframes_cmOk {c : Cm} (h : CmOk own fl c) (f n : Nat) : CmOk own fl (markKframes c f n) := by
  rw [markKframes_rest]
  refine ⟨h.init, h.room, h.ram, h.clock, fun g hg => ?_, ?_, h.mem_fl, fun g hg => ?_⟩
  · simp only [markKframes_coreDetails]; exact h.id_eq g hg
  · exact h.links.congr (fun x _ => by simp only [markKframes_coreDetails])
      fun x _ => by simp only [markKframes_coreDetails]
  · simp only [markKframes_coreDetails]; exact h.flag g hg

theorem markKframes_good (h : Good G own fl s) (f n : Nat) :
    Good G own fl { s with cm := markKframes s.cm f n } := by
  obtain ⟨sl, hc⟩ := h.core
  have hr : ∀ g, (markKframes s.cm f n).InRange g ↔ s.cm.InRange g := fun g => by rw [markKframes_rest]; rfl
  refine h.congr (markKframes_cmOk hc.cm f n) hr (fun _ _ => Iff.rfl) (fun g => ?_) (fun _ _ => SameDetail.refl _)
    (fun _ _ _ _ => rfl) rfl fun m hm => (h.tlb m hm).congr hr (fun _ _ => Iff.rfl) rfl fun _ _ => rfl
  simp only [markKframes_coreDetails]

/-! ## Claiming the frames -/

structure Claims (own : Nat → Owner) (l : List Nat) (s s' : Vm) : Prop where
  size : s'.cm.size = s.cm.size
  lowest : s'.cm.lowestFrame = s.cm.lowestFrame
  clock : s'.cm.clockPointer = s.cm.clockPointer
  kern : ∀ g, (s'.cm.coreDetails g).kern = if g ∈ l ∧ own g = .free then 1 else (s.cm.coreDetails g).kern
  pd : ∀ g, g ∉ l → (s'.cm.coreDetails g).pd = (s.cm.coreDetails g).pd
  details : ∀ q, (∀ g ∈ l, own g ≠ .user q) → SameDetail (s.pds q) (s'.pds q)
  mem : s'.mem = s.mem
  tlb : s.tlb.Shrinks s'.tlb

theorem Claims.nil (own : Nat → Owner) (s : Vm) : Claims own [] s s :=
  ⟨rfl, rfl, rfl, fun _ => by simp, fun _ _ => rfl, fun _ _ => SameDetail.refl _, rfl, .refl _⟩

theorem Claims.cons {i : Nat} {l : List Nat} {s₁ : Vm} (h : Claims (Function.update own i .kernel) l s₁ s') (hi : i ∉ l)
    (hsize : s₁.cm.size = s.cm.size) (hlow : s₁.cm.lowestFrame = s.cm.lowestFrame)
    (hclock : s₁.cm.clockPointer = s.cm.clockPointer)
    (hkern : ∀ g, (s₁.cm.coreDetails g).kern = if g = i ∧ own i = .free then 1 else (s.cm.coreDetails g).kern)
    (hpd : ∀ g, g ≠ i → (s₁.cm.coreDetails g).pd = (s.cm.coreDetails g).pd)
    (hd : ∀ q, own i ≠ .user q → SameDetail (s.pds q) (s₁.pds q)) (hmem : s₁.mem = s.mem)
    (htlb : s.tlb.Shrinks s₁.tlb) : Claims own (i :: l) s s' where
  size := h.size.trans hsize
  lowest := h.lowest.trans hlow
  clock := h.clock.trans hclock
  kern g := by
    rw [h.kern, hkern]
    rcases eq_or_ne g i with rfl | e
    · simp [hi]
    · simp [e]
  pd g hg := by
    rw [List.mem_cons, not_or] at hg
    rw [h.pd g hg.2, hpd g hg.1]
  details q hq := by
    refine (hd q (hq i (List.mem_cons_self ..))).trans (h.details q fun g hg e => ?_)
    rw [Function.update_of_ne (by rintro rfl; exact hi hg)] at e
    exact hq g (List.mem_cons_of_mem _ hg) e
  mem := h.mem.trans hmem
  tlb := htlb.trans h.tlb

theorem Good.removeFree (h : Good G own fl s) (hr : s.cm.InRange f) (hf : own f = .free) :
    ∃ c fl', freeFrameListRemove s.cm f = .ok c ∧ Good G (Function.update own f .kernel) fl' { s with cm := c } ∧
      SameFrames s.cm c ∧ ∀ g, (c.coreDetails g).kern = if g = f then 1 else (s.cm.coreDetails g).kern := by
  obtain ⟨sl, hc⟩ := h.core
  have hmem := (hc.cm.mem_fl f).mpr ⟨hr, hf⟩
  obtain ⟨c, he, hcm, hs, hkern⟩ := freeFrameListRemove_ok (o := .kernel) (by simp) hc.cm hmem
  have hu : ∀ g q, Function.update own f .kernel g = .user q ↔ own g = .user q := fun g q => by
    by_cases e : g = f
    · simp [e, hf]
    · simp [e]
  refine ⟨c, _, he, h.congr hcm hs.inRange hu hs.pd (fun _ _ => SameDetail.refl _) (fun _ _ _ _ => rfl) rfl
    fun m hm => (h.tlb m hm).congr hs.inRange hu rfl fun _ _ => rfl, hs, hkern⟩

theorem claimKframes_good {l : List Nat} (h : Good G own fl s) (hl : l.Nodup)
    (hin : ∀ i ∈ l, s.cm.InRange i ∧ (own i = .free ∨ ∃ p, own i = .user p)) :
    Post (claimKframes l s)
      (fun s' => (∃ fl', Good G (setOwn own l .kernel) fl' s') ∧ Claims own l s s')
      (fun c => c.why = .outOfSwapSpace ∧ SwapFull G.live c.vm) := by
  induction l generalizing own fl s with
  | nil => exact ⟨⟨fl, by simpa using h⟩, Claims.nil own s⟩
  | cons i l ih =>
    obtain ⟨hi, hl⟩ := List.nodup_cons.mp hl
    obtain ⟨hir, hio⟩ := hin i (List.mem_cons_self ..)
    have hrest : ∀ s₁ : Vm, s₁.cm.size = s.cm.size → s₁.cm.lowestFrame = s.cm.lowestFrame →
        ∀ j ∈ l, s₁.cm.InRange j ∧ (Function.update own i .kernel j = .free ∨
          ∃ p, Function.update own i .kernel j = .user p) := by
      intro s₁ hsz hlo j hj
      have hji : j ≠ i := fun e => hi (e ▸ hj)
      rw [Function.update_of_ne hji]
      unfold Cm.InRange
      rw [hsz, hlo]
      exact hin j (List.mem_cons_of_mem _ hj)
    obtain ⟨sl, hc⟩ := h.core
    unfold claimKframes
    rw [setOwn_cons]
    rcases hio with hf | ⟨p, hu⟩
    · obtain ⟨c, fl', he, hg, hs, hkern⟩ := h.removeFree hir hf
      rw [if_pos ((hc.cm.flag i hir).mpr hf), he]
      refine (ih hg hl (hrest _ hs.size hs.lowest)).mono (fun s' ⟨hg', hcl⟩ => ⟨hg', ?_⟩) fun c hc => hc
      exact hcl.cons hi hs.size hs.lowest hs.clock (fun g => by rw [hkern]; simp [hf]) (fun g _ => hs.pd g)
        (fun q _ => SameDetail.refl _) rfl (.refl _)
    · have hnf : ¬ (s.cm.coreDetails i).free = true := fun e => by
        rw [(hc.cm.flag i hir).mp e] at hu; cases hu
      rw [if_neg hnf]
      refine (cmFreeCore_good (o := .kernel) trivial h hir hu).bind fun s₁ _ ⟨hg, he⟩ => ?_
      refine (ih hg hl (hrest _ he.same.1 he.same.2.1)).mono (fun s' ⟨hg', hcl⟩ => ⟨hg', ?_⟩) fun c hc => hc
      refine hcl.cons hi he.same.1 he.same.2.1 he.same.2.2 (fun g => ?_) (fun g hg => ?_) (fun q hq => ?_) he.mem he.tlb
      · rw [he.kern, if_neg (by rw [hu]; simp)]
      · rw [he.pd, if_neg hg]
      · rw [he.pds q (by rintro rfl; exact hq hu)]
        exact SameDetail.refl _

/-! ## A request -/

theorem KernOk.free_or_user {c : Cm} (hk : KernOk own c) (hr : c.InRange f) (h0 : (c.coreDetails f).kern = 0)
    (hh : ¬ HalfSetUp own c f) : own f = .free ∨ ∃ p, own f = .user p := by
  cases ho : own f with
  | free => exact Or.inl rfl
  | kernel => exact absurd (hk.kernel hr ho) (by omega)
  | user p => exact Or.inr ⟨p, rfl⟩
  | busy => exact absurd ⟨hr, ho, h0⟩ hh

structure Grants (own : Nat → Owner) (f n : Nat) (s s' : Vm) : Prop where
  first : s.cm.lowestFrame ≤ f
  last : f + n ≤ s.cm.size
  before : ∀ g ∈ List.range' f n, own g = .free ∨ ∃ p, own g = .user p
  size : s'.cm.size = s.cm.size
  lowest : s'.cm.lowestFrame = s.cm.lowestFrame
  clock : s'.cm.clockPointer = s.cm.clockPointer
  kern : ∀ g, (s'.cm.coreDetails g).kern =
    if g ∈ List.range' f n then (if g = f ∧ own f ≠ .free then n else 1) else (s.cm.coreDetails g).kern
  pd : ∀ g, g ∉ List.range' f n → (s'.cm.coreDetails g).pd = (s.cm.coreDetails g).pd
  details : ∀ q, (∀ g ∈ List.range' f n, own g ≠ .user q) → SameDetail (s.pds q) (s'.pds q)
  mem : s'.mem = s.mem
  tlb : s.tlb.Shrinks s'.tlb

theorem Grants.inRange (h : Grants own f n s s') (g : Nat) : s'.cm.InRange g ↔ s.cm.InRange g := by
  unfold Cm.InRange; rw [h.size, h.lowest]

theorem Grants.kernOk (h : Grants own f n s s') (hn : 1 ≤ n) (hk : KernOk own s.cm) :
    KernOk (setOwn own (List.range' f n) .kernel) s'.cm := by
  refine hk.congr h.inRange fun g _ => ?_
  by_cases hg : g ∈ List.range' f n
  · left
    rw [setOwn_of_mem hg]
    simp only [Owner.Fits, h.kern, if_pos hg]
    split <;> omega
  · exact Or.inr ⟨setOwn_of_not_mem hg, by rw [h.kern, if_neg hg], h.pd g hg⟩

theorem cmRequestKframes_good (h : Good G own fl s) (hk : KernOk own s.cm) (hn : 1 ≤ n)
    (hfind : findKframes s.cm n = some f) (hh : ∀ g ∈ List.range' f n, ¬ HalfSetUp own s.cm g) :
    Post (cmRequestKframes s n)
      (fun r => r.1 = paddrToKvaddr (f * pageSize) ∧
        (∃ fl', Good G (setOwn own (List.range' f n) .kernel) fl' r.2) ∧ Grants own f n s r.2)
      (fun c => c.why = .outOfSwapSpace ∧ SwapFull G.live c.vm) := by
  obtain ⟨sl, hc⟩ := h.core
  obtain ⟨hlo, hsz, hzero⟩ := findKframes_some hfind
  have hin : ∀ g ∈ List.range' f n, s.cm.InRange g ∧ (own g = .free ∨ ∃ p, own g = .user p) := by
    intro g hg
    have hm := List.mem_range'_1.mp hg
    have hr : s.cm.InRange g := ⟨by omega, by omega⟩
    exact ⟨hr, hk.free_or_user hr (hzero g hm.1 hm.2) (hh g hg)⟩
  unfold cmRequestKframes
  rw [if_neg (by simp [hc.cm.init]), hfind]
  have hmark : ∀ g, (markKframes s.cm f n).InRange g ↔ s.cm.InRange g := fun g => by rw [markKframes_rest]; rfl
  refine (claimKframes_good (markKframes_good h f n) List.nodup_range' fun g hg =>
    ⟨(hmark g).mpr (hin g hg).1, (hin g hg).2⟩).bind fun s' _ ⟨hg', hcl⟩ => ?_
  refine ⟨rfl, hg', hlo, hsz, fun g hg => (hin g hg).2, ?_, ?_, ?_, fun g => ?_, fun g hg => ?_, hcl.details, hcl.mem,
    hcl.tlb⟩
  · rw [hcl.size, markKframes_rest]
  · rw [hcl.lowest, markKframes_rest]
  · rw [hcl.clock, markKframes_rest]
  · rw [hcl.kern]
    simp only [markKframes_coreDetails, List.mem_range'_1]
    grind
  · rw [hcl.pd g hg]
    simp only [markKframes_coreDetails]

/-! ## A release -/

theorem releaseKframes_good {l : List Nat} {c : Cm} (h : CmOk own fl c) (hl : l.Nodup) (hf : c.lowestFrame ≤ f)
    (hin : ∀ i ∈ l, c.InRange i ∧ own i = .kernel ∧ 0 < (c.coreDetails i).kern) :
    ∃ c', releaseKframes f l c = .ok c' ∧ CmOk (setOwn own l .free) (fl ++ l) c' ∧ SameFrames c c' ∧
      ∀ g, (c'.coreDetails g).kern = if g ∈ l then 0 else (c.coreDetails g).kern := by
  induction l generalizing own fl c with
  | nil => exact ⟨c, rfl, by simpa using h, SameFrames.refl c, fun _ => by simp⟩
  | cons i l ih =>
    obtain ⟨hi, hl⟩ := List.nodup_cons.mp hl
    obtain ⟨hir, hik, hi0⟩ := hin i (List.mem_cons_self ..)
    have hs := freeFrameListAddBack_same c i
    have hkern := freeFrameListAddBack_kern c i
    have hok := freeFrameListAddBack_ok h hir (by rw [hik]; simp)
    obtain ⟨c', he, hcm, hs', hkern'⟩ := ih hok hl (by rw [hs.lowest]; exact hf) fun j hj => by
      have hji : j ≠ i := by rintro rfl; exact hi hj
      rw [hs.inRange, hkern, if_neg hji, Function.update_of_ne hji]
      exact hin j (List.mem_cons_of_mem _ hj)
    refine ⟨c', ?_, ?_, hs.trans hs', fun g => ?_⟩
    · unfold releaseKframes
      rw [if_neg (by omega), if_neg (by omega)]
      exact he
    · rw [setOwn_cons]
      simpa using hcm
    · rw [hkern', hkern]
      rcases eq_or_ne g i with rfl | e
      · simp
      · simp [e]

theorem cmReleaseKframes_good (h : Good G own fl s) (hk : KernOk own s.cm) (hn : (s.cm.coreDetails f).kern = n)
    (hr : s.cm.InRange f) (hin : ∀ i ∈ List.range' f n, s.cm.InRange i ∧ own i = .kernel) (hf : own f = .kernel) :
    ∃ c, cmReleaseKframes s.cm f = .ok c ∧ Good G (setOwn own (List.range' f n) .free) (fl ++ List.range' f n)
        { s with cm := c } ∧ KernOk (setOwn own (List.range' f n) .free) c ∧ SameFrames s.cm c ∧
      ∀ g, (c.coreDetails g).kern = if g ∈ List.range' f n then 0 else (s.cm.coreDetails g).kern := by
  obtain ⟨sl, hc⟩ := h.core
  have hpos := hk.kernel hr hf
  obtain ⟨c, he, hcm, hs, hkern⟩ := releaseKframes_good (f := f) hc.cm (List.nodup_range' (s := f) (n := n)) hr.1
    fun i hi => ⟨(hin i hi).1, (hin i hi).2, hk.kernel (hin i hi).1 (hin i hi).2⟩
  have hu : ∀ g q, setOwn own (List.range' f n) .free g = .user q ↔ own g = .user q := fun g q => by
    by_cases e : g ∈ List.range' f n
    · simp [setOwn_of_mem e, (hin g e).2]
    · rw [setOwn_of_not_mem e]
  refine ⟨c, ?_, ?_, ?_, hs, hkern⟩
  · unfold cmReleaseKframes
    simp only [hn]
    rw [if_neg (by omega)]
    exact he
  · exact h.congr hcm hs.inRange hu hs.pd (fun _ _ => SameDetail.refl _) (fun _ _ _ _ => rfl) rfl
      fun m hm => (h.tlb m hm).congr hs.inRange hu rfl fun _ _ => rfl
  · refine hk.congr hs.inRange fun g _ => ?_
    by_cases hg : g ∈ List.range' f n
    · left
      rw [setOwn_of_mem hg]
      simp [Owner.Fits, hkern, hg]
    · exact Or.inr ⟨setOwn_of_not_mem hg, by rw [hkern, if_neg hg], hs.pd g⟩

end Os161
