import Os161.Kframes
import Os161.RunSound

/-!
# Frames in flight and runs of kernel frames

What any sequence of core-map calls keeps. The invariant is about the core
map alone, so pages, swap space and the TLB may hold anything.
-/

namespace Os161

open Linked Outcome

structure CmInv (own : Nat → Owner) (fl : List Nat) (c : Cm) : Prop where
  cm : CmOk own fl c
  kern : KernOk own c
  pd : ∀ f p, c.InRange f → own f = .user p → (c.coreDetails f).pd = some p

structure FramesMove (own : Nat → Owner) (l : List Nat) (o : Owner) (c c' : Cm) : Prop where
  size : c'.size = c.size
  lowest : c'.lowestFrame = c.lowestFrame
  kern : ∀ g, g ∉ l → (c'.coreDetails g).kern = (c.coreDetails g).kern
  inv : ∃ fl, CmInv (setOwn own l o) fl c'

def Crash.Unrelated (c : Crash) : Prop := c.why ≠ .nullPointer ∧ c.why ≠ .freeFramesNotInFreeList

variable {own : Nat → Owner} {fl fl' l : List Nat} {s s' : Vm} {c c' : Cm} {f n : Nat} {p : PdPtr} {o : Owner}

theorem setOwn_singleton (own : Nat → Owner) (f : Nat) (o : Owner) : setOwn own [f] o = Function.update own f o := by
  rw [setOwn_cons, setOwn_nil]

theorem FramesMove.inRange (h : FramesMove own l o c c') (g : Nat) : c'.InRange g ↔ c.InRange g := by
  unfold Cm.InRange; rw [h.size, h.lowest]

theorem CmInv.move (h : CmInv own fl c) (hcm : CmOk (setOwn own l o) fl' c') (hsize : c'.size = c.size)
    (hlow : c'.lowestFrame = c.lowestFrame)
    (hout : ∀ g, g ∉ l → (c'.coreDetails g).kern = (c.coreDetails g).kern ∧
      (c'.coreDetails g).pd = (c.coreDetails g).pd)
    (hin : ∀ g ∈ l, o.Fits (c'.coreDetails g) ∧ ∀ p, o = .user p → (c'.coreDetails g).pd = some p) :
    FramesMove own l o c c' := by
  have hr : ∀ g, c'.InRange g ↔ c.InRange g := fun g => by unfold Cm.InRange; rw [hsize, hlow]
  refine ⟨hsize, hlow, fun g hg => (hout g hg).1, fl', hcm, h.kern.congr hr fun g _ => ?_, fun g p hg hu => ?_⟩
  · by_cases hm : g ∈ l
    · left
      rw [setOwn_of_mem hm]
      exact (hin g hm).1
    · exact Or.inr ⟨setOwn_of_not_mem hm, hout g hm⟩
  · by_cases hm : g ∈ l
    · rw [setOwn_of_mem hm] at hu
      exact (hin g hm).2 p hu
    · rw [setOwn_of_not_mem hm] at hu
      rw [(hout g hm).2]
      exact h.pd g p ((hr g).mp hg) hu

theorem CmInv.setClock {k : Nat} (h : CmInv own fl c) (hk : k < c.size - c.lowestFrame) :
    CmInv own fl { c with clockPointer := k } :=
  ⟨h.cm.setClock hk, h.kern, h.pd⟩

/-! ## Eviction -/

theorem tlbInvalidateVaddr_unrelated (s s₁ : Vm) (v : Nat) :
    Post (raise s₁ (tlbInvalidateVaddr s.tlb v)) (fun tlb => s.tlb.Shrinks tlb) Crash.Unrelated := by
  by_cases hal : v &&& pageFrame = v
  · obtain ⟨tlb, ht, -⟩ := tlbInvalidateVaddr_spec s.tlb hal
    rw [ht]
    exact tlbInvalidateVaddr_shrinks hal ht
  · have he : tlbInvalidateVaddr s.tlb v = .error (.assertionFailed .vaddrIsPageAligned) := if_pos hal
    rw [he]
    exact ⟨by simp, by simp⟩

theorem cmFreeCore_frame (hpd : (s.cm.coreDetails f).pd = some p) :
    Post (cmFreeCore s f) (fun s' => ∃ tlb swap sfn, s' = evicted s f p tlb swap sfn ∧ s.tlb.Shrinks tlb)
      Crash.Unrelated := by
  by_cases hal : (s.pds p).vaddr &&& pageFrame = (s.pds p).vaddr
  · obtain ⟨tlb, ht, hcase⟩ := cmFreeCore_cases hpd hal
    have hsh := tlbInvalidateVaddr_shrinks hal ht
    obtain ⟨-, he⟩ | ⟨-, node, -, he⟩ | ⟨-, -, he⟩ := hcase
    · rw [he]; exact ⟨tlb, _, _, rfl, hsh⟩
    · rw [he]; exact ⟨tlb, _, _, rfl, hsh⟩
    · rw [he]; exact ⟨by simp, by simp⟩
  · have he : tlbInvalidateVaddr s.tlb (s.pds p).vaddr = .error (.assertionFailed .vaddrIsPageAligned) := if_pos hal
    have hb : cmFreeCore s f = .error { why := .assertionFailed .vaddrIsPageAligned, vm := s } := by
      simp [cmFreeCore, freeCoreBegin, hpd, he, raise, bind, Except.bind]
    rw [hb]
    exact ⟨by simp, by simp⟩

theorem cmFreeCore_none (hpd : (s.cm.coreDetails f).pd = none) :
    cmFreeCore s f = .error { why := .nullPointer, vm := s } := by
  simp [cmFreeCore, freeCoreBegin, hpd, bind, Except.bind]

structure Clears (own : Nat → Owner) (c : Cm) (f : Nat) (c' : Cm) : Prop where
  inRange : c.InRange f
  user : ∃ p, own f = .user p
  clock : clockToIndex c' c'.clockPointer = f
  kern : ∀ g, (c'.coreDetails g).kern = (c.coreDetails g).kern
  move : FramesMove own [f] .busy c c'

def Turned (own : Nat → Owner) (c : Cm) (r : Option Nat) (c' : Cm) : Prop :=
  match r with
  | none => ∃ k, k < c.size - c.lowestFrame ∧ c' = { c with clockPointer := k }
  | some f => Clears own c f c'

theorem Turned.of_clock {k : Nat} {r : Option Nat} (h : Turned own { c with clockPointer := k } r c') :
    Turned own c r c' := by
  cases r with
  | none => exact h
  | some f => exact ⟨h.inRange, h.user, h.clock, h.kern, h.move.size, h.move.lowest, h.move.kern, h.move.inv⟩

theorem cmFreeCore_clears (h : CmInv own [] s.cm) {i : Nat} (hi : clockToIndex s.cm s.cm.clockPointer = i)
    (hr : s.cm.InRange i) (hu : own i = .user p) :
    Post (cmFreeCore s i >>= fun s' => .ok (some (s'.cm.coreDetails i).id, s'))
      (fun r => Turned own s.cm r.1 r.2.cm) Crash.Unrelated := by
  refine (cmFreeCore_frame (h.pd i p hr hu)).bind fun s' _ hs => ?_
  obtain ⟨tlb, swap, sfn, rfl, hsh⟩ := hs
  have he : Evicts s (evicted s i p tlb swap sfn) i p := evicted_evicts hsh
  have hcm : CmOk (Function.update own i .busy) [] (evicted s i p tlb swap sfn).cm := evicted_cm h.cm hr hu trivial
  have hid : ((evicted s i p tlb swap sfn).cm.coreDetails i).id = i := by rw [he.id]; exact h.cm.id_eq i hr
  have h0 : ((evicted s i p tlb swap sfn).cm.coreDetails i).kern = 0 := by rw [he.kern]; exact h.kern.user hr hu
  rw [← setOwn_singleton] at hcm
  rw [post_ok, hid]
  refine ⟨hr, ⟨p, hu⟩, (he.takes hi).clock, he.kern, h.move hcm he.same.1 he.same.2.1 (fun g hg => ?_) fun g hg => ?_⟩
  · rw [he.pd, if_neg (by simpa using hg)]
    exact ⟨he.kern g, rfl⟩
  · obtain rfl := List.mem_singleton.mp hg
    exact ⟨Or.inr ⟨h0, by rw [he.pd, if_pos rfl]⟩, fun q e => by cases e⟩

theorem pushUnused_turned (h : CmInv own [] s.cm) (hh : NoHalf own s.cm) :
    Post (pushUnused n s) (fun r => Turned own s.cm r.1 r.2.cm) Crash.Unrelated := by
  induction n generalizing s with
  | zero => exact ⟨s.cm.clockPointer, h.cm.clock, rfl⟩
  | succ n ih =>
    have hin := clock_inRange h.cm.clockOk
    generalize hi : clockToIndex s.cm s.cm.clockPointer = i at hin
    have hadv : CmInv own [] (advanceClock s.cm) := h.setClock (Nat.mod_lt _ (Nat.sub_pos_of_lt h.cm.room))
    by_cases h0 : (s.cm.coreDetails i).kern = 0
    · obtain ⟨p, hu⟩ := h.kern.paged h.cm hh hin h0
      have hpd := h.pd i p hin hu
      cases huse : (s.pds p).use with
      | true =>
        cases ht : tlbInvalidateVaddr s.tlb (s.pds p).vaddr with
        | error e =>
          have := tlbInvalidateVaddr_unrelated s (s.modifyPd p fun d => { d with use := false }) (s.pds p).vaddr
          rw [ht] at this
          unfold pushUnused
          simp only [hi, h0, if_true, hpd, huse, Vm.modifyPd_tlb, Vm.modifyPd_self, ht]
          exact this
        | ok tlb =>
          rw [pushUnused_pass hi n h0 hpd huse ht]
          exact (ih (s := passed s p tlb) hadv hh).mono (fun r hr => hr.of_clock) fun c hc => hc
      | false =>
        rw [pushUnused_take hi n h0 hpd huse]
        exact cmFreeCore_clears h hi hin hu
    · rw [pushUnused_skip hi n h0]
      exact (ih (s := { s with cm := advanceClock s.cm }) hadv hh).mono (fun r hr => hr.of_clock) fun c hc => hc

theorem pushAny_turned (h : CmInv own [] s.cm) (hh : NoHalf own s.cm) :
    Post (pushAny n s) (fun r => Turned own s.cm r.1 r.2.cm) Crash.Unrelated := by
  induction n generalizing s with
  | zero => exact ⟨s.cm.clockPointer, h.cm.clock, rfl⟩
  | succ n ih =>
    have hin := clock_inRange h.cm.clockOk
    generalize hi : clockToIndex s.cm s.cm.clockPointer = i at hin
    unfold pushAny
    simp only [hi]
    by_cases h0 : (s.cm.coreDetails i).kern = 0
    · obtain ⟨p, hu⟩ := h.kern.paged h.cm hh hin h0
      simp only [h0, if_true, h.pd i p hin hu]
      exact cmFreeCore_clears h hi hin hu
    · have hadv : CmInv own [] (advanceClock s.cm) := h.setClock (Nat.mod_lt _ (Nat.sub_pos_of_lt h.cm.room))
      simp only [h0, if_false]
      exact (ih (s := { s with cm := advanceClock s.cm }) hadv hh).mono (fun r hr => hr.of_clock) fun c hc => hc

theorem cmPushToSwap_clears (h : CmInv own [] s.cm) (hh : NoHalf own s.cm) :
    Post (cmPushToSwap s) (fun r => Clears own s.cm r.1 r.2.cm) Crash.Unrelated := by
  unfold cmPushToSwap
  refine (pushUnused_turned h hh).bind ?_
  rintro ⟨r, s₁⟩ - hr
  cases r with
  | some f => exact hr
  | none =>
    obtain ⟨k, hk, hc⟩ := hr
    have h₁ : CmInv own [] s₁.cm := by rw [hc]; exact h.setClock hk
    have hh₁ : NoHalf own s₁.cm := by rw [hc]; exact hh
    refine (pushAny_turned h₁ hh₁).bind ?_
    rintro ⟨r, s₂⟩ - hr
    rw [hc] at hr
    cases r with
    | some f => exact hr.of_clock
    | none => exact ⟨by simp, by simp⟩

/-! ## Getting a frame -/

structure GivesFrame (own : Nat → Owner) (c : Cm) (f : Nat) (c' : Cm) : Prop where
  inRange : c.InRange f
  move : FramesMove own [f] .busy c c'
  way : (c.freeFrameList ≠ none ∧ own f = .free ∧ (c'.coreDetails f).kern = 1 ∧ c'.clockPointer = c.clockPointer) ∨
    (c.freeFrameList = none ∧ NoHalf own c ∧ (∃ p, own f = .user p) ∧ (c'.coreDetails f).kern = 0 ∧
      clockToIndex c' c'.clockPointer = f)

theorem cmGetppage_pops (h : CmInv own (f :: fl) s.cm) :
    ∃ s', cmGetppage s = .ok (f, s') ∧ GivesFrame own s.cm f s'.cm := by
  have hf := (h.cm.mem_fl f).mp (List.mem_cons_self ..)
  have hs := popped_same h.cm
  have hkern := fun g => (popped_flags h.cm g).1
  refine ⟨{ s with cm := popped s.cm }, ?_, hf.1, ?_, Or.inl ⟨?_, hf.2, by rw [hkern, if_pos rfl], hs.clock⟩⟩
  · unfold cmGetppage
    rw [freeFrameListPop_cons h.cm]
    simp only [hs.id, h.cm.id_eq f hf.1]
  · refine h.move (by rw [setOwn_singleton]; exact popped_ok (by simp) h.cm) hs.size hs.lowest (fun g hg => ?_)
      fun g hg => ?_
    · exact ⟨by rw [hkern, if_neg (by simpa using hg)], hs.pd g⟩
    · obtain rfl := List.mem_singleton.mp hg
      exact ⟨Or.inl (by rw [hkern, if_pos rfl]), fun q e => by cases e⟩
  · rw [h.cm.links.head_eq]
    simp

theorem cmGetppage_gives (h : CmInv own fl s.cm) (hh : HalfAtClock own s.cm) :
    Post (cmGetppage s) (fun r => GivesFrame own s.cm r.1 r.2.cm)
      fun c => (s.cm.freeFrameList = none → NoHalf own s.cm) → c.Unrelated := by
  cases fl with
  | cons f fl =>
    obtain ⟨s', he, hg⟩ := cmGetppage_pops h
    rw [he]
    exact hg
  | nil =>
    have hnone : s.cm.freeFrameList = none := h.cm.links.head_eq
    by_cases hno : NoHalf own s.cm
    · unfold cmGetppage
      rw [freeFrameListPop_nil h.cm]
      refine (cmPushToSwap_clears h hno).mono (fun r hr => ⟨hr.inRange, hr.move, Or.inr ?_⟩) fun c hc _ => hc
      obtain ⟨p, hu⟩ := hr.user
      exact ⟨hnone, hno, ⟨p, hu⟩, by rw [hr.kern]; exact h.kern.user hr.inRange hu, hr.clock⟩
    · obtain ⟨f, hf⟩ : ∃ f, HalfSetUp own s.cm f := by simpa [NoHalf] using hno
      rw [cmGetppage_half h.cm h.kern hf (hh f hf)]
      exact fun hn => absurd (hn hnone) hno

/-! ## Giving it a page, and taking it back -/

theorem cmFinishPaging_moves (h : CmInv own fl s.cm) (hr : s.cm.InRange f) (hb : own f = .busy) :
    FramesMove own [f] (.user p) s.cm (cmFinishPaging s f p).cm ∧
      (cmFinishPaging s f p).cm.clockPointer = s.cm.clockPointer := by
  have hf : own f ≠ .free := by rw [hb]; simp
  have hne : ∀ x ∈ fl, x ≠ f := fun x hx e => h.cm.not_mem hf (e ▸ hx)
  have hcd : ∀ g, (cmFinishPaging s f p).cm.coreDetails g =
      if g = f then { s.cm.coreDetails f with pd := some p, free := false, kern := 0 } else s.cm.coreDetails g := by
    intro g
    simp only [cmFinishPaging, Vm.modifyPd_cm, Cm.modify_coreDetails]
  have hcm : CmOk (setOwn own [f] (.user p)) fl (cmFinishPaging s f p).cm := by
    rw [setOwn_singleton]
    refine ⟨h.cm.init, h.cm.room, h.cm.ram, h.cm.clock, fun g hg => ?_, ?_, fun g => ?_, fun g hg => ?_⟩
    · rw [hcd]
      split
      · subst_vars; exact h.cm.id_eq _ hr
      · exact h.cm.id_eq g hg
    · exact h.cm.links.congr (fun x hx => by rw [hcd, if_neg (hne x hx)]) fun x hx => by rw [hcd, if_neg (hne x hx)]
    · rw [update_ne_free_iff (by simp), h.cm.mem_fl]
      exact ⟨fun hg => ⟨hg.1, fun e => hf (e ▸ hg.2), hg.2⟩, fun hg => ⟨hg.1, hg.2.2⟩⟩
    · rw [update_ne_free_iff (by simp), hcd]
      split
      · simp_all
      · simp_all [h.cm.flag g hg]
  refine ⟨h.move hcm rfl rfl (fun g hg => ?_) fun g hg => ?_, rfl⟩
  · rw [hcd, if_neg (by simpa using hg)]
    exact ⟨rfl, rfl⟩
  · obtain rfl := List.mem_singleton.mp hg
    rw [hcd, if_pos rfl]
    exact ⟨rfl, fun q e => by cases e; rfl⟩

theorem CmInv.paged (h : CmInv own fl c) (hf : c.paged f) : c.InRange f ∧ ∃ p, own f = .user p := by
  obtain ⟨hr, hfree, h0, hpd⟩ := hf
  refine ⟨hr, ?_⟩
  have hfit := h.kern f hr
  cases ho : own f with
  | free => rw [(h.cm.flag f hr).mpr ho] at hfree; cases hfree
  | kernel => rw [ho] at hfit; exact absurd hfit (by simp [Owner.Fits, h0])
  | user p => exact ⟨p, rfl⟩
  | busy => rw [ho] at hfit; simp [Owner.Fits, h0, hpd] at hfit

theorem cmReleaseFrame_moves (h : CmInv own fl c) (hf : c.paged f) :
    ∃ c', cmReleaseFrame c f = .ok c' ∧ FramesMove own [f] .free c c' ∧ c'.clockPointer = c.clockPointer := by
  obtain ⟨hr, p, hu⟩ := h.paged hf
  have hs := freeFrameListAdd_same c f
  have hkern := freeFrameListAdd_kern c f
  have hcm := freeFrameListAdd_ok h.cm hr (by rw [hu]; simp)
  rw [← setOwn_singleton] at hcm
  refine ⟨_, if_pos hr.1, h.move hcm hs.size hs.lowest (fun g hg => ?_) fun g hg => ?_, hs.clock⟩
  · exact ⟨by rw [hkern, if_neg (by simpa using hg)], hs.pd g⟩
  · obtain rfl := List.mem_singleton.mp hg
    exact ⟨by simp [Owner.Fits, hkern], fun q e => by cases e⟩

/-! ## Runs of kernel frames -/

theorem claimKframes_frames (h : CmOk own fl s.cm) (hl : l.Nodup)
    (hpd : ∀ i ∈ l, ∀ p, own i = .user p → (s.cm.coreDetails i).pd = some p)
    (hin : ∀ i ∈ l, s.cm.InRange i ∧ own i ≠ .kernel ∧ (own i = .busy → (s.cm.coreDetails i).pd = none)) :
    Post (claimKframes l s)
      (fun s' => (∃ fl', CmOk (setOwn own l .kernel) fl' s'.cm) ∧ Claims own l s s' ∧
        ∀ i ∈ l, own i = .free ∨ ∃ p, own i = .user p)
      (fun c => (∀ i ∈ l, own i ≠ .busy) → c.Unrelated) := by
  induction l generalizing own fl s with
  | nil => exact ⟨⟨fl, by simpa using h⟩, Claims.nil own s, by simp⟩
  | cons i l ih =>
    obtain ⟨hi, hl⟩ := List.nodup_cons.mp hl
    obtain ⟨hir, hik, hib⟩ := hin i (List.mem_cons_self ..)
    have hji : ∀ j ∈ l, j ≠ i := fun j hj e => hi (e ▸ hj)
    -- the rest of the run does not change when `i` goes to the kernel
    have rest : ∀ (s₁ : Vm) (fl₁ : List Nat), CmOk (Function.update own i .kernel) fl₁ s₁.cm →
        s₁.cm.size = s.cm.size → s₁.cm.lowestFrame = s.cm.lowestFrame →
        (∀ g, g ≠ i → (s₁.cm.coreDetails g).pd = (s.cm.coreDetails g).pd) →
        Post (claimKframes l s₁)
          (fun s' => (∃ fl', CmOk (setOwn own (i :: l) .kernel) fl' s'.cm) ∧
            Claims (Function.update own i .kernel) l s₁ s' ∧ ∀ j ∈ l, own j = .free ∨ ∃ p, own j = .user p)
          (fun c => (∀ j ∈ i :: l, own j ≠ .busy) → c.Unrelated) := by
      intro s₁ fl₁ h₁ hsz hlo hp
      rw [setOwn_cons]
      refine (ih h₁ hl (fun j hj p e => ?_) fun j hj => ?_).mono (fun s' hs => ⟨hs.1, hs.2.1, fun j hj => ?_⟩)
        fun c hc hb => hc fun j hj => ?_
      · rw [Function.update_of_ne (hji j hj)] at e
        rw [hp j (hji j hj)]
        exact hpd j (List.mem_cons_of_mem _ hj) p e
      · rw [Function.update_of_ne (hji j hj), hp j (hji j hj)]
        unfold Cm.InRange
        rw [hsz, hlo]
        exact hin j (List.mem_cons_of_mem _ hj)
      · have := hs.2.2 j hj
        rwa [Function.update_of_ne (hji j hj)] at this
      · rw [Function.update_of_ne (hji j hj)]
        exact hb j (List.mem_cons_of_mem _ hj)
    unfold claimKframes
    cases ho : own i with
    | kernel => exact absurd ho hik
    | free =>
      obtain ⟨c, he, hcm, hs, hkern⟩ := freeFrameListRemove_ok (o := .kernel) (by simp) h ((h.mem_fl i).mpr ⟨hir, ho⟩)
      rw [if_pos ((h.flag i hir).mpr ho), he]
      refine (rest { s with cm := c } _ hcm hs.size hs.lowest fun g _ => hs.pd g).mono (fun s' hs' => ?_) fun c hc => hc
      obtain ⟨h1, h2, h3⟩ := hs'
      refine ⟨h1, h2.cons hi hs.size hs.lowest hs.clock (fun g => by rw [hkern]; simp [ho]) (fun g _ => hs.pd g)
        (fun q _ => SameDetail.refl _) rfl (.refl _), fun j hj => ?_⟩
      rcases List.mem_cons.mp hj with rfl | hj
      · exact Or.inl ho
      · exact h3 j hj
    | user p =>
      have hnf : ¬ (s.cm.coreDetails i).free = true := fun e => by rw [(h.flag i hir).mp e] at ho; cases ho
      rw [if_neg hnf]
      refine ((cmFreeCore_frame (hpd i (List.mem_cons_self ..) p ho)).mono (fun _ h => h) fun c hc _ => hc).bind ?_
      rintro s₁ - ⟨tlb, swap, sfn, rfl, hsh⟩
      have he : Evicts s (evicted s i p tlb swap sfn) i p := evicted_evicts hsh
      have hcm : CmOk (Function.update own i .kernel) fl (evicted s i p tlb swap sfn).cm :=
        evicted_cm h hir ho trivial
      refine (rest _ _ hcm he.same.1 he.same.2.1 fun g hg => by rw [he.pd, if_neg hg]).mono (fun s' hs' => ?_)
        fun c hc => hc
      obtain ⟨h1, h2, h3⟩ := hs'
      refine ⟨h1, h2.cons hi he.same.1 he.same.2.1 he.same.2.2 (fun g => ?_) (fun g hg => by rw [he.pd, if_neg hg])
        (fun q hq => ?_) he.mem he.tlb, fun j hj => ?_⟩
      · rw [he.kern, if_neg (by rw [ho]; simp)]
      · rw [he.pds q (by rintro rfl; exact hq ho)]
        exact SameDetail.refl _
      · rcases List.mem_cons.mp hj with rfl | hj
        · exact Or.inr ⟨p, ho⟩
        · exact h3 j hj
    | busy =>
      have hnf : ¬ (s.cm.coreDetails i).free = true := fun e => by rw [(h.flag i hir).mp e] at ho; cases ho
      rw [if_neg hnf, cmFreeCore_none (hib ho)]
      exact fun hb => absurd ho (hb i (List.mem_cons_self ..))

theorem cmRequestKframes_grants (h : CmInv own fl s.cm) (hn : 1 ≤ n) :
    Post (cmRequestKframes s n)
      (fun r => ∃ f, findKframes s.cm n = some f ∧ r.1 = paddrToKvaddr (f * pageSize) ∧ Grants own f n s r.2 ∧
        FramesMove own (List.range' f n) .kernel s.cm r.2.cm)
      (fun c => (∀ f, findKframes s.cm n = some f → ∀ g ∈ List.range' f n, ¬ HalfSetUp own s.cm g) → c.Unrelated) := by
  unfold cmRequestKframes
  rw [if_neg (by simp [h.cm.init])]
  cases hfind : findKframes s.cm n with
  | none => exact fun _ => ⟨by simp, by simp⟩
  | some f =>
    obtain ⟨hlo, hsz, hzero⟩ := findKframes_some hfind
    have hr : ∀ g ∈ List.range' f n, s.cm.InRange g ∧ (s.cm.coreDetails g).kern = 0 := fun g hg => by
      have hm := List.mem_range'_1.mp hg
      exact ⟨⟨by omega, by omega⟩, hzero g hm.1 hm.2⟩
    have hmark : ∀ g, (markKframes s.cm f n).InRange g ↔ s.cm.InRange g := fun g => by rw [markKframes_rest]; rfl
    have hmpd : ∀ g, ((markKframes s.cm f n).coreDetails g).pd = (s.cm.coreDetails g).pd := fun g => by
      simp only [markKframes_coreDetails]
    have hpost := claimKframes_frames (s := { s with cm := markKframes s.cm f n }) (l := List.range' f n)
      (markKframes_cmOk h.cm f n) List.nodup_range' (fun g hg p e => by rw [hmpd]; exact h.pd g p (hr g hg).1 e)
      fun g hg => by
        refine ⟨(hmark g).mpr (hr g hg).1, fun e => ?_, fun e => ?_⟩
        · exact absurd (h.kern.kernel (hr g hg).1 e) (by rw [(hr g hg).2]; simp)
        · have hfit := h.kern g (hr g hg).1
          rw [e] at hfit
          rw [hmpd]
          simpa [Owner.Fits, (hr g hg).2] using hfit
    refine (hpost.mono (fun _ h => h) fun c hc hh => hc fun g hg e => ?_).bind fun s' _ hs => ?_
    · exact hh f rfl g hg ⟨(hr g hg).1, e, (hr g hg).2⟩
    · obtain ⟨⟨fl', hcm⟩, hcl, hbefore⟩ := hs
      have hgr : Grants own f n s s' := by
        refine ⟨hlo, hsz, hbefore, ?_, ?_, ?_, fun g => ?_, fun g hg => ?_, hcl.details, hcl.mem, hcl.tlb⟩
        · rw [hcl.size, markKframes_rest]
        · rw [hcl.lowest, markKframes_rest]
        · rw [hcl.clock, markKframes_rest]
        · rw [hcl.kern]
          simp only [markKframes_coreDetails, List.mem_range'_1]
          grind
        · rw [hcl.pd g hg, hmpd]
      refine ⟨f, rfl, rfl, hgr, h.move hcm hgr.size hgr.lowest (fun g hg => ?_) fun g hg => ?_⟩
      · exact ⟨by rw [hgr.kern, if_neg hg], hgr.pd g hg⟩
      · refine ⟨?_, fun q e => by cases e⟩
        simp only [Owner.Fits, hgr.kern, if_pos hg]
        split <;> omega

theorem cmReleaseKframes_moves (h : CmInv own fl c) (hk : (c.coreDetails f).kern = n) (hn : 1 ≤ n)
    (hin : ∀ i ∈ List.range' f n, c.InRange i ∧ own i = .kernel) :
    ∃ c', cmReleaseKframes c f = .ok c' ∧ FramesMove own (List.range' f n) .free c c' ∧
      CmOk (setOwn own (List.range' f n) .free) (fl ++ List.range' f n) c' ∧ SameFrames c c' ∧
      ∀ g, (c'.coreDetails g).kern = if g ∈ List.range' f n then 0 else (c.coreDetails g).kern := by
  have hff : f ∈ List.range' f n := List.mem_range'_1.mpr ⟨Nat.le_refl _, by omega⟩
  obtain ⟨c', he, hcm, hs, hkern⟩ := releaseKframes_good (f := f) h.cm (List.nodup_range' (s := f) (n := n))
    (hin f hff).1.1 fun i hi => ⟨(hin i hi).1, (hin i hi).2, h.kern.kernel (hin i hi).1 (hin i hi).2⟩
  refine ⟨c', ?_, h.move hcm hs.size hs.lowest (fun g hg => ?_) fun g hg => ?_, hcm, hs, hkern⟩
  · unfold cmReleaseKframes
    simp only [hk]
    rw [if_neg (by omega)]
    exact he
  · exact ⟨by rw [hkern, if_neg hg], hs.pd g⟩
  · exact ⟨by simp [Owner.Fits, hkern, hg], fun q e => by cases e⟩

/-! ## A step -/

variable {t t' t₀ : CmRun} {op : CmOp}

structure CmRun.Holds (t : CmRun) (own : Nat → Owner) (fl : List Nat) : Prop where
  inv : CmInv own fl t.vm.cm
  clock : HalfAtClock own t.vm.cm
  popped : ∀ f, f ∈ t.popped ↔ t.vm.cm.InRange f ∧ own f = .busy ∧ (t.vm.cm.coreDetails f).kern ≠ 0
  taken : ∀ f, f ∈ t.taken ↔ HalfSetUp own t.vm.cm f
  runs : RunsOk own t.vm.cm t.runs

def CmRun.Valid (t : CmRun) : Prop := ∃ own fl, t.Holds own fl

def CmOp.Effect (own : Nat → Owner) (t t' : CmRun) (l : List Nat) (o : Owner) : CmOp → Prop
  | .requestKframes num => ∃ f, findKframes t.vm.cm num = some f ∧ l = List.range' f num ∧ o = .kernel ∧
      t'.runs = t.runs ++ [(f, num)] ∧ (∀ g ∈ l, own g = .free ∨ ∃ p, own g = .user p) ∧
      (t'.vm.cm.coreDetails f).kern = if own f = .free then 1 else num
  | .releaseKframes f => l = List.range' f (t.vm.cm.coreDetails f).kern ∧ o = .free ∧
      t'.runs = t.runs.filter fun r => r.1 != f
  | _ => t'.runs = t.runs ∧ o ≠ .kernel ∧ ∀ g ∈ l, own g ≠ .kernel

theorem CmRun.Holds.after {u : CmRun} (h : t.Holds own fl) (hm : FramesMove own l o t.vm.cm u.vm.cm)
    (hclock : HalfAtClock (setOwn own l o) u.vm.cm) (hruns : RunsOk (setOwn own l o) u.vm.cm u.runs)
    (hp : ∀ f, f ∈ u.popped ↔ (f ∈ l ∧ t.vm.cm.InRange f ∧ o = .busy ∧ (u.vm.cm.coreDetails f).kern ≠ 0) ∨
      (f ∉ l ∧ f ∈ t.popped))
    (ht : ∀ f, f ∈ u.taken ↔ (f ∈ l ∧ t.vm.cm.InRange f ∧ o = .busy ∧ (u.vm.cm.coreDetails f).kern = 0) ∨
      (f ∉ l ∧ f ∈ t.taken)) : ∃ fl', u.Holds (setOwn own l o) fl' := by
  obtain ⟨fl', hinv⟩ := hm.inv
  refine ⟨fl', hinv, hclock, fun f => ?_, fun f => ?_, hruns⟩
  · rw [hp, hm.inRange, h.popped]
    by_cases hf : f ∈ l
    · simp [hf, setOwn_of_mem hf]
    · simp [hf, setOwn_of_not_mem hf, hm.kern f hf]
  · unfold HalfSetUp
    rw [ht, hm.inRange, h.taken, HalfSetUp]
    by_cases hf : f ∈ l
    · simp [hf, setOwn_of_mem hf]
    · simp [hf, setOwn_of_not_mem hf, hm.kern f hf]

theorem HalfAtClock.after (h : HalfAtClock own c) (hm : FramesMove own l o c c') (hc : c'.clockPointer = c.clockPointer)
    (hl : ∀ f ∈ l, o = .busy → (c'.coreDetails f).kern ≠ 0) : HalfAtClock (setOwn own l o) c' := by
  rintro f ⟨hr, hb, h0⟩
  by_cases hf : f ∈ l
  · rw [setOwn_of_mem hf] at hb
    exact absurd h0 (hl f hf hb)
  · rw [setOwn_of_not_mem hf] at hb
    rw [hm.kern f hf] at h0
    rw [← h f ⟨(hm.inRange f).mp hr, hb, h0⟩]
    unfold clockToIndex
    rw [hc, hm.lowest]

theorem RunsOk.after {runs : List (Nat × Nat)} (h : RunsOk own c runs) (hm : FramesMove own l o c c')
    (hl : ∀ g ∈ l, own g ≠ .kernel) : RunsOk (setOwn own l o) c' runs :=
  h.congr hm.inRange fun r hr g hg => by
    have hk := (h.kernel r hr g hg).2
    have hgl : g ∉ l := fun e => hl g e hk
    exact ⟨by rw [setOwn_of_not_mem hgl]; exact hk, hm.kern g hgl⟩

theorem cmStep_getppage (h : t.Holds own fl) (hs : cmStep t .getppage = .ok t') :
    ∃ l o, FramesMove own l o t.vm.cm t'.vm.cm ∧ (∃ fl', t'.Holds (setOwn own l o) fl') ∧
      CmOp.Effect own t t' l o .getppage := by
  simp only [cmStep] at hs
  obtain ⟨⟨f, vm⟩, hget, hs⟩ := bind_eq_ok.mp hs
  have hgives : GivesFrame own t.vm.cm f vm.cm := (cmGetppage_gives h.inv h.clock).ok_of hget
  obtain ⟨hr, hm, hway⟩ := hgives
  obtain ⟨hne, hfree, hk, hclk⟩ | ⟨hnil, hno, ⟨p, hu⟩, hk, hclk⟩ := hway
  · have hnk : ∀ g ∈ [f], own g ≠ .kernel := fun g hg => by
      rw [List.mem_singleton.mp hg, hfree]; simp
    simp only [if_neg hne, Except.ok.injEq] at hs
    subst hs
    refine ⟨[f], .busy, hm, h.after (u := { t with vm := vm, popped := f :: t.popped }) hm
      (h.clock.after hm hclk fun g hg _ => ?_) (h.runs.after hm hnk) (fun g => ?_) fun g => ?_, rfl, by simp, hnk⟩
    · rw [List.mem_singleton.mp hg, hk]; simp
    · rcases eq_or_ne g f with rfl | e
      · simp [hk, hr]
      · simp [e]
    · rcases eq_or_ne g f with rfl | e
      · simp [hk, h.taken, HalfSetUp, hfree]
      · simp [e]
  · have hnk : ∀ g ∈ [f], own g ≠ .kernel := fun g hg => by
      rw [List.mem_singleton.mp hg, hu]; simp
    simp only [if_pos hnil, Except.ok.injEq] at hs
    subst hs
    refine ⟨[f], .busy, hm, h.after (u := { t with vm := vm, taken := f :: t.taken }) hm ?_ (h.runs.after hm hnk)
      (fun g => ?_) fun g => ?_, rfl, by simp, hnk⟩
    · -- no other frame was half set up
      rintro g ⟨hgr, hb, h0⟩
      rcases eq_or_ne g f with rfl | e
      · exact hclk
      · have hg : g ∉ [f] := by simpa using e
        rw [setOwn_of_not_mem hg] at hb
        rw [hm.kern g hg] at h0
        exact absurd ⟨(hm.inRange g).mp hgr, hb, h0⟩ (hno g)
    · rcases eq_or_ne g f with rfl | e
      · simp [hk, h.popped, hu]
      · simp [e]
    · rcases eq_or_ne g f with rfl | e
      · simp [hk, hr]
      · simp [e]

theorem cmStep_finishPaging (h : t.Holds own fl) (hf : f ∈ t.popped ∨ f ∈ t.taken)
    (hs : cmStep t (.finishPaging f p) = .ok t') :
    ∃ l o, FramesMove own l o t.vm.cm t'.vm.cm ∧ (∃ fl', t'.Holds (setOwn own l o) fl') ∧
      CmOp.Effect own t t' l o (.finishPaging f p) := by
  have hb : t.vm.cm.InRange f ∧ own f = .busy := by
    rcases hf with hf | hf
    · exact ⟨((h.popped f).mp hf).1, ((h.popped f).mp hf).2.1⟩
    · exact ⟨((h.taken f).mp hf).1, ((h.taken f).mp hf).2.1⟩
  obtain ⟨hm, hclk⟩ := cmFinishPaging_moves (p := p) h.inv hb.1 hb.2
  have hnk : ∀ g ∈ [f], own g ≠ .kernel := fun g hg => by
    rw [List.mem_singleton.mp hg, hb.2]; simp
  simp only [cmStep, Except.ok.injEq] at hs
  subst hs
  refine ⟨[f], .user p, hm, h.after hm (h.clock.after hm hclk fun g _ e => by cases e) (h.runs.after hm hnk)
    (fun g => ?_) fun g => ?_, rfl, by simp, hnk⟩
  · simp [and_comm]
  · simp [and_comm]

theorem cmStep_requestKframes (h : t.Holds own fl) (hn : 1 ≤ n) (hs : cmStep t (.requestKframes n) = .ok t') :
    ∃ l o, FramesMove own l o t.vm.cm t'.vm.cm ∧ (∃ fl', t'.Holds (setOwn own l o) fl') ∧
      CmOp.Effect own t t' l o (.requestKframes n) := by
  simp only [cmStep] at hs
  obtain ⟨⟨a, vm⟩, hreq, hs⟩ := bind_eq_ok.mp hs
  obtain ⟨f, hfind, hadr, hg, hm⟩ := (cmRequestKframes_grants h.inv hn).ok_of hreq
  simp only [Except.ok.injEq, show a = paddrToKvaddr (f * pageSize) from hadr, kframe_eq] at hs
  subst hs
  have hff : f ∈ List.range' f n := List.mem_range'_1.mpr ⟨Nat.le_refl _, by omega⟩
  have hnb : ∀ g ∈ List.range' f n, own g ≠ .busy := fun g hgf e => by
    rcases hg.before g hgf with e' | ⟨p, e'⟩ <;> rw [e] at e' <;> cases e'
  refine ⟨List.range' f n, .kernel, hm, h.after hm (h.clock.after hm hg.clock fun g _ e => by cases e)
    (h.runs.grant hg hn) (fun g => ?_) (fun g => ?_), f, hfind, rfl, rfl, rfl, hg.before, ?_⟩
  · by_cases hgf : g ∈ List.range' f n
    · simp [hgf, h.popped, hnb g hgf]
    · simp [hgf]
  · by_cases hgf : g ∈ List.range' f n
    · simp [hgf, h.taken, HalfSetUp, hnb g hgf]
    · simp [hgf]
  · have hk := hg.kern f
    rw [if_pos hff] at hk
    exact hk.trans (by by_cases e : own f = .free <;> simp [e])

theorem cmStep_releaseFrame (h : t.Holds own fl) (hf : t.vm.cm.paged f) (hs : cmStep t (.releaseFrame f) = .ok t') :
    ∃ l o, FramesMove own l o t.vm.cm t'.vm.cm ∧ (∃ fl', t'.Holds (setOwn own l o) fl') ∧
      CmOp.Effect own t t' l o (.releaseFrame f) := by
  obtain ⟨-, p, hu⟩ := h.inv.paged hf
  obtain ⟨c', he, hm, hclk⟩ := cmReleaseFrame_moves h.inv hf
  have hnk : ∀ g ∈ [f], own g ≠ .kernel := fun g hg => by
    rw [List.mem_singleton.mp hg, hu]; simp
  simp only [cmStep, he, raise_ok, ok_bind, Except.ok.injEq] at hs
  subst hs
  refine ⟨[f], .free, hm, h.after hm (h.clock.after hm hclk fun g _ e => by cases e) (h.runs.after hm hnk)
    (fun g => ?_) fun g => ?_, rfl, by simp, hnk⟩
  · rcases eq_or_ne g f with rfl | e
    · simp [h.popped, hu]
    · simp [e]
  · rcases eq_or_ne g f with rfl | e
    · simp [h.taken, HalfSetUp, hu]
    · simp [e]

theorem CmRun.Holds.release (h : t.Holds own fl) (hf : (f, n) ∈ t.runs) :
    ∃ k c', (t.vm.cm.coreDetails f).kern = k ∧ 1 ≤ k ∧ k ≤ n ∧ cmReleaseKframes t.vm.cm f = .ok c' ∧
      FramesMove own (List.range' f k) .free t.vm.cm c' ∧
      CmOk (setOwn own (List.range' f k) .free) (fl ++ List.range' f k) c' ∧ SameFrames t.vm.cm c' ∧
      ∀ g, (c'.coreDetails g).kern = if g ∈ List.range' f k then 0 else (t.vm.cm.coreDetails g).kern := by
  have hn : 1 ≤ n := h.runs.pos _ hf
  have hin : ∀ g ∈ List.range' f n, _ := h.runs.kernel _ hf
  generalize hk : (t.vm.cm.coreDetails f).kern = k
  have hkn : k = n ∨ k = 1 := hk ▸ h.runs.head _ hf
  have hsub : ∀ i ∈ List.range' f k, i ∈ List.range' f n := fun i hi => by
    have := List.mem_range'_1.mp hi
    exact List.mem_range'_1.mpr (by omega)
  obtain ⟨c', he, hm, hcm, hs, hkern⟩ := cmReleaseKframes_moves h.inv hk (by omega) fun i hi => hin i (hsub i hi)
  exact ⟨k, c', rfl, by omega, by omega, he, hm, hcm, hs, hkern⟩

theorem cmStep_releaseKframes (h : t.Holds own fl) (hf : ∃ r ∈ t.runs, r.1 = f)
    (hs : cmStep t (.releaseKframes f) = .ok t') :
    ∃ l o, FramesMove own l o t.vm.cm t'.vm.cm ∧ (∃ fl', t'.Holds (setOwn own l o) fl') ∧
      CmOp.Effect own t t' l o (.releaseKframes f) := by
  obtain ⟨⟨f', n⟩, hr, rfl⟩ := hf
  obtain ⟨k, c', hk, -, hkn, he, hm, -, hsame, hkern⟩ := h.release hr
  simp only [cmStep, he, raise_ok, ok_bind, Except.ok.injEq] at hs
  subst hs
  have hker : ∀ g ∈ List.range' f' k, own g = .kernel := fun g hg => by
    have := List.mem_range'_1.mp hg
    exact (h.runs.kernel _ hr g (List.mem_range'_1.mpr (by omega))).2
  refine ⟨List.range' f' k, .free, hm, h.after hm (h.clock.after hm hsame.clock fun g _ e => by cases e)
    (h.runs.release hr hkn hsame hkern) (fun g => ?_) (fun g => ?_), by rw [hk], rfl, rfl⟩
  · by_cases hg : g ∈ List.range' f' k
    · simp [hg, h.popped, hker g hg]
    · simp [hg]
  · by_cases hg : g ∈ List.range' f' k
    · simp [hg, h.taken, HalfSetUp, hker g hg]
    · simp [hg]

theorem cmStep_effect (h : t.Holds own fl) (hc : op.callable t) (hs : cmStep t op = .ok t') :
    ∃ l o, FramesMove own l o t.vm.cm t'.vm.cm ∧ (∃ fl', t'.Holds (setOwn own l o) fl') ∧ op.Effect own t t' l o := by
  cases op with
  | getppage => exact cmStep_getppage h hs
  | finishPaging f p => exact cmStep_finishPaging h hc hs
  | requestKframes n => exact cmStep_requestKframes h hc hs
  | releaseFrame f => exact cmStep_releaseFrame h hc hs
  | releaseKframes f => exact cmStep_releaseKframes h hc hs
  | other pds mem swap tlb =>
    simp only [cmStep, Except.ok.injEq] at hs
    subst hs
    refine ⟨[], .free, ⟨rfl, rfl, fun _ _ => rfl, fl, by simpa using h.inv⟩, ⟨fl, ?_⟩, rfl, by simp, by simp⟩
    rw [setOwn_nil]
    exact ⟨h.inv, h.clock, h.popped, h.taken, h.runs⟩

theorem CmRun.Valid.reach (h : t₀.Valid) (hr : Reach cmStep (fun t op => op.callable t) t₀ t) : t.Valid :=
  hr.invariant h fun t op t' hv hc hs => by
    obtain ⟨own, fl, hv⟩ := hv
    obtain ⟨l, o, -, ⟨fl', h'⟩, -⟩ := cmStep_effect hv hc hs
    exact ⟨_, fl', h'⟩

/-! ## The start -/

def CmRun.boot (b : Boot) : CmRun := { vm := (Os161.boot b).vm, popped := [], taken := [], runs := [] }

theorem CmRun.boot_valid (b : Boot) : (CmRun.boot b).Valid := by
  have hcm : CmOk (fun _ => .free) _ (CmRun.boot b).vm.cm := cmBootstrap_ok b.core b.room b.ram
  have hr : ∀ f, (CmRun.boot b).vm.cm.InRange f → ((CmRun.boot b).vm.cm.coreDetails f).kern = 0 := fun f hf => by
    have hf' : b.lowest ≤ f ∧ f < b.size := hf
    simp [CmRun.boot, Os161.boot, cmBootstrap, hf']
  refine ⟨_, _, ⟨hcm, hr, by simp⟩, fun f hf => ?_, by simp [CmRun.boot],
    fun f => ?_, by simp [CmRun.boot], by simp [CmRun.boot], by simp [CmRun.boot], by simp [CmRun.boot]⟩
  · cases hf.2.1
  · simp [CmRun.boot, HalfSetUp]

/-! ## Frames in flight -/

def CmRun.inFlight (t : CmRun) (f : Nat) : Prop := f ∈ t.popped ∨ f ∈ t.taken

def CmOp.Safe (t : CmRun) : CmOp → Prop
  | .getppage => Post (cmGetppage t.vm) (fun r => ¬ t.inFlight r.1) Crash.Unrelated
  | .requestKframes num =>
    Post (cmRequestKframes t.vm num) (fun r => ∀ g ∈ List.range' (kframe r.1) num, ¬ t.inFlight g) Crash.Unrelated
  | _ => True

/-- `cm_getppage` finds a free frame, or no frame is in flight that was
taken from a page; `cm_request_kframes` does not come across one. -/
def CmOp.calm (t : CmRun) : CmOp → Prop
  | .getppage => t.vm.cm.freeFrameList = none → t.taken = []
  | .requestKframes num => ∀ f, findKframes t.vm.cm num = some f → ∀ g ∈ List.range' f num, g ∉ t.taken
  | _ => True

theorem CmRun.Holds.inFlight (h : t.Holds own fl) (hf : t.inFlight f) : own f = .busy := by
  rcases hf with hf | hf
  · exact ((h.popped f).mp hf).2.1
  · exact ((h.taken f).mp hf).2.1

theorem CmRun.Holds.safe (h : t.Holds own fl) (hc : op.callable t) (hcalm : op.calm t) : op.Safe t := by
  cases op with
  | getppage =>
    refine (cmGetppage_gives h.inv h.clock).mono (fun r hr hf => ?_) fun c hc => hc fun hnil f hf => ?_
    · have hb := h.inFlight hf
      rcases hr.way with ⟨-, e, -⟩ | ⟨-, -, ⟨p, e⟩, -⟩ <;> rw [hb] at e <;> cases e
    · have := (h.taken f).mpr hf
      rw [hcalm hnil] at this
      cases this
  | requestKframes n =>
    refine (cmRequestKframes_grants h.inv hc).mono (fun r hr g hg hf => ?_) fun c hc => hc fun f hfind g hg hh => ?_
    · obtain ⟨f, -, hadr, hgr, -⟩ := hr
      have hb := h.inFlight hf
      rw [hadr, kframe_eq] at hg
      rcases hgr.before g hg with e | ⟨p, e⟩ <;> rw [hb] at e <;> cases e
    · exact hcalm f hfind g hg ((h.taken g).mpr hh)
  | finishPaging f p => trivial
  | releaseFrame f => trivial
  | releaseKframes f => trivial
  | other pds mem swap tlb => trivial

/-- In any run, a call that meets the condition hands out no frame in flight
and is not stopped by one. -/
theorem inFlight_safe (h : t₀.Valid) (hr : Reach cmStep (fun t op => op.callable t) t₀ t) (hc : op.callable t)
    (hcalm : op.calm t) : op.Safe t := by
  obtain ⟨own, fl, ht⟩ := h.reach hr
  exact ht.safe hc hcalm

def fillAndTake : List CmOp :=
  [.getppage, .finishPaging 3 ⟨0, 0⟩, .getppage, .finishPaging 2 ⟨0, 1⟩, .getppage, .finishPaging 1 ⟨0, 2⟩, .getppage]

theorem inFlight_safe_released : ∃ t, Reach cmStep (fun t op => op.callable t) (CmRun.boot tiny) t ∧ 1 ∈ t.taken ∧
    CmOp.getppage.Safe t := by
  obtain ⟨t, hr, htaken, hfree⟩ : ∃ t, Reach cmStep (fun t op => op.callable t) (CmRun.boot tiny) t ∧ 1 ∈ t.taken ∧
      t.vm.cm.freeFrameList = some 3 := Reach.of_leads (l := fillAndTake ++ [.releaseFrame 3]) (by decide)
  exact ⟨t, hr, htaken, inFlight_safe (CmRun.boot_valid tiny) hr trivial fun e => by rw [hfree] at e; cases e⟩

theorem taken_frame_stops : ∃ t, Reach cmStep (fun t op => op.callable t) (CmRun.boot tiny) t ∧ 1 ∈ t.taken ∧
    Post (cmGetppage t.vm) (fun _ => False) (fun c => c.why = .freeFramesNotInFreeList) ∧
    Post (cmRequestKframes t.vm 1) (fun _ => False) (fun c => c.why = .nullPointer) :=
  Reach.of_leads (l := fillAndTake) (by decide)

/-! ## Requests and releases -/

def CmRun.kernelOwned (t : CmRun) (f : Nat) : Prop :=
  t.vm.cm.InRange f ∧ (t.vm.cm.coreDetails f).kern ≠ 0 ∧ f ∉ t.popped

instance CmRun.decidableKernelOwned (t : CmRun) (f : Nat) : Decidable (t.kernelOwned f) :=
  inferInstanceAs (Decidable ((_ ∧ _) ∧ _ ∧ _))

def Cm.FreeList (c : Cm) (l : List Nat) : Prop :=
  DList (fun i => (c.coreDetails i).nextFree) (fun i => (c.coreDetails i).prevFree) c.freeFrameList c.lastFree l

/-- The request that led from `t` to `t'` got `num` frames from `f` on, and
whatever else is called, releasing `f` gives back just these. -/
structure Inverse (t t' : CmRun) (f num : Nat) : Prop where
  granted : t'.runs = t.runs ++ [(f, num)]
  fresh : ∀ g ∈ List.range' f num, ¬ t.kernelOwned g
  owned : ∀ g, t'.kernelOwned g ↔ t.kernelOwned g ∨ g ∈ List.range' f num
  back : ∀ t'', Reach cmStep (fun t op => op.callable t ∧ op ≠ .releaseKframes f) t' t'' →
    ∃ l c, t''.vm.cm.FreeList l ∧ cmReleaseKframes t''.vm.cm f = .ok c ∧ c.FreeList (l ++ List.range' f num)

def CmOp.whole (t : CmRun) : CmOp → Prop
  | .requestKframes num => num = 1 ∨ ∀ f, findKframes t.vm.cm num = some f → (t.vm.cm.coreDetails f).free = false
  | _ => True

theorem CmRun.Holds.kernelOwned_iff (h : t.Holds own fl) (f : Nat) :
    t.kernelOwned f ↔ t.vm.cm.InRange f ∧ own f = .kernel := by
  unfold CmRun.kernelOwned
  refine and_congr_right fun hr => ?_
  have hfit := h.inv.kern f hr
  rw [h.popped]
  cases ho : own f <;> rw [ho] at hfit <;> simp_all [Owner.Fits]
  exact Nat.pos_iff_ne_zero.mp hfit

theorem CmRun.Holds.kept (h : t.Holds own fl) (hf : (f, n) ∈ t.runs) (hc : op.callable t) (hop : op ≠ .releaseKframes f)
    (hs : cmStep t op = .ok t') : (∃ own' fl', t'.Holds own' fl') ∧ (f, n) ∈ t'.runs ∧
      (t'.vm.cm.coreDetails f).kern = (t.vm.cm.coreDetails f).kern := by
  obtain ⟨l, o, hm, ⟨fl', h'⟩, he⟩ := cmStep_effect h hc hs
  have hff : f ∈ List.range' f n := List.mem_range'_1.mpr ⟨Nat.le_refl _, by have := h.runs.pos _ hf; omega⟩
  have hfk := (h.runs.kernel _ hf f hff).2
  -- a call that takes no frame from the kernel leaves the run alone
  have hleft : (∀ g ∈ l, own g ≠ .kernel) → (t'.vm.cm.coreDetails f).kern = (t.vm.cm.coreDetails f).kern :=
    fun hl => hm.kern f fun e => hl f e hfk
  refine ⟨⟨_, fl', h'⟩, ?_⟩
  cases op with
  | requestKframes num =>
    obtain ⟨f', -, -, -, hruns, hbefore, -⟩ := he
    refine ⟨by rw [hruns]; exact List.mem_append_left _ hf, hleft fun g hg e => ?_⟩
    rcases hbefore g hg with e' | ⟨p, e'⟩ <;> rw [e] at e' <;> cases e'
  | releaseKframes f' =>
    obtain ⟨hl, -, hruns⟩ := he
    obtain ⟨⟨f'', n'⟩, hr, rfl⟩ := hc
    have hne : f ≠ f'' := fun e => hop (by rw [e])
    refine ⟨by rw [hruns]; exact List.mem_filter.mpr ⟨hf, by simpa using hne⟩, hm.kern f fun e => hne ?_⟩
    obtain ⟨k, -, hk, -, hkn, -⟩ := h.release hr
    rw [hl, hk] at e
    have hin : f ∈ List.range' f'' n' := List.mem_range'_1.mpr (by have := List.mem_range'_1.mp e; omega)
    exact congrArg Prod.fst (h.runs.unique hf hr hff hin)
  | getppage => exact ⟨he.1 ▸ hf, hleft he.2.2⟩
  | finishPaging g p => exact ⟨he.1 ▸ hf, hleft he.2.2⟩
  | releaseFrame g => exact ⟨he.1 ▸ hf, hleft he.2.2⟩
  | other pds mem swap tlb => exact ⟨he.1 ▸ hf, hleft he.2.2⟩

theorem CmRun.Holds.release_later (h : t.Holds own fl) (hf : (f, n) ∈ t.runs)
    (hr : Reach cmStep (fun t op => op.callable t ∧ op ≠ .releaseKframes f) t t') :
    ∃ l c, t'.vm.cm.FreeList l ∧ cmReleaseKframes t'.vm.cm f = .ok c ∧
      c.FreeList (l ++ List.range' f (t.vm.cm.coreDetails f).kern) := by
  have hI : (∃ own fl, t'.Holds own fl) ∧ (f, n) ∈ t'.runs ∧
      (t'.vm.cm.coreDetails f).kern = (t.vm.cm.coreDetails f).kern := by
    refine hr.invariant (I := fun t' => (∃ own fl, t'.Holds own fl) ∧ (f, n) ∈ t'.runs ∧
      (t'.vm.cm.coreDetails f).kern = (t.vm.cm.coreDetails f).kern) ⟨⟨own, fl, h⟩, hf, rfl⟩ ?_
    rintro u op u' ⟨⟨own', fl', hu⟩, hfu, hk⟩ ⟨hc, hop⟩ hs
    obtain ⟨h', hf', hk'⟩ := hu.kept hfu hc hop hs
    exact ⟨h', hf', hk'.trans hk⟩
  obtain ⟨⟨own', fl', h'⟩, hf', hk⟩ := hI
  obtain ⟨k, c, hk', -, -, he, -, hcm, -⟩ := h'.release hf'
  rw [← hk, hk']
  exact ⟨fl', c, h'.inv.cm.links, he, hcm.links⟩

theorem CmRun.Holds.inverse_iff (h : t.Holds own fl) (hn : 1 ≤ n) (hs : cmStep t (.requestKframes n) = .ok t') :
    (∃ f, Inverse t t' f n) ↔ (CmOp.requestKframes n).whole t := by
  obtain ⟨l, o, hm, ⟨fl', h'⟩, f, hfind, rfl, rfl, hruns, hbefore, hk⟩ := cmStep_requestKframes h hn hs
  have hff : f ∈ List.range' f n := List.mem_range'_1.mpr ⟨Nat.le_refl _, by omega⟩
  have hmem : (f, n) ∈ t'.runs := by rw [hruns]; simp
  have hfr : t.vm.cm.InRange f := (hm.inRange f).mp (h'.runs.kernel _ hmem f hff).1
  have hfree : (t.vm.cm.coreDetails f).free = false ↔ own f ≠ .free := by
    rw [Ne, ← h.inv.cm.flag f hfr, Bool.not_eq_true]
  have hwhole : (CmOp.requestKframes n).whole t ↔ n = 1 ∨ own f ≠ .free := by
    simp only [CmOp.whole, hfind, Option.some.injEq, forall_eq', hfree]
  have hnk : ∀ g ∈ List.range' f n, own g ≠ .kernel := fun g hg e => by
    rcases hbefore g hg with e' | ⟨p, e'⟩ <;> rw [e] at e' <;> cases e'
  rw [hwhole]
  constructor
  · rintro ⟨f', hinv⟩
    obtain rfl : f = f' := by
      have := hruns.symm.trans hinv.granted
      simpa using this
    by_contra hcon
    rw [not_or, not_not] at hcon
    rw [if_pos hcon.2] at hk
    obtain ⟨l, c, h1, h2, h3⟩ := hinv.back t' .refl
    obtain ⟨l', c', h1', h2', h3'⟩ := h'.release_later hmem .refl
    cases h2.symm.trans h2'
    obtain rfl := h1.fwd.unique h1'.fwd
    have hlen := congrArg List.length (h3.fwd.unique h3'.fwd)
    rw [hk] at hlen
    simp only [List.length_append, List.length_range'] at hlen
    omega
  · intro hw
    have hkn : (t'.vm.cm.coreDetails f).kern = n := by
      rw [hk]
      split
      · rcases hw with rfl | hw
        · rfl
        · exact absurd ‹_› hw
      · rfl
    refine ⟨f, hruns, fun g hg => ?_, fun g => ?_, fun t'' hr => ?_⟩
    · rw [h.kernelOwned_iff]
      exact fun e => hnk g hg e.2
    · rw [h.kernelOwned_iff, h'.kernelOwned_iff, hm.inRange]
      by_cases hg : g ∈ List.range' f n
      · have := (h'.runs.kernel _ hmem g hg).1
        simp [hg, setOwn_of_mem hg, (hm.inRange g).mp this]
      · simp [hg, setOwn_of_not_mem hg]
    · have := h'.release_later hmem hr
      rwa [hkn] at this

/-- Every frame of the kernel was one at the start or is in a run, and every
run's first frame knows its length. -/
structure CmRun.Tidy (t₀ t : CmRun) : Prop where
  full : ∀ r ∈ t.runs, (t.vm.cm.coreDetails r.1).kern = r.2
  known : ∀ g, t.kernelOwned g → t₀.kernelOwned g ∨ ∃ r ∈ t.runs, g ∈ List.range' r.1 r.2

theorem CmRun.Tidy.step (ht : t₀.Tidy t) (h : t.Holds own fl) (hc : op.callable t) (hw : op.whole t)
    (hs : cmStep t op = .ok t') : t₀.Tidy t' := by
  obtain ⟨l, o, hm, ⟨fl', h'⟩, he⟩ := cmStep_effect h hc hs
  -- runs that are still there say what they said
  have hsay : ∀ r ∈ t.runs, op ≠ .releaseKframes r.1 → (t'.vm.cm.coreDetails r.1).kern = r.2 := fun r hr hop => by
    rw [(h.kept (f := r.1) (n := r.2) hr hc hop hs).2.2]
    exact ht.full r hr
  -- a frame that was the kernel's already is accounted for
  have hold : ∀ g, g ∉ l → t'.kernelOwned g → t₀.kernelOwned g ∨ ∃ r ∈ t.runs, g ∈ List.range' r.1 r.2 :=
    fun g hg hk => by
      rw [h'.kernelOwned_iff, hm.inRange, setOwn_of_not_mem hg] at hk
      exact ht.known g ((h.kernelOwned_iff g).mpr hk)
  have hsame : t'.runs = t.runs → o ≠ .kernel → (∀ f, op ≠ .releaseKframes f) → t₀.Tidy t' := fun hruns ho hop => by
    refine ⟨fun r hr => ?_, fun g hk => ?_⟩
    · rw [hruns] at hr
      exact hsay r hr (hop r.1)
    · rw [hruns]
      refine hold g (fun hg => ?_) hk
      rw [h'.kernelOwned_iff, setOwn_of_mem hg] at hk
      exact ho hk.2
  cases op with
  | requestKframes num =>
    obtain ⟨f, hfind, rfl, rfl, hruns, -, hk⟩ := he
    have hff : f ∈ List.range' f num := List.mem_range'_1.mpr ⟨Nat.le_refl _, by have : 1 ≤ num := hc; omega⟩
    refine ⟨fun r hr => ?_, fun g hg => ?_⟩
    · rw [hruns, List.mem_append, List.mem_singleton] at hr
      rcases hr with hr | rfl
      · exact hsay r hr (by simp)
      · rw [hk]
        split
        · rcases hw with rfl | hw
          · rfl
          · have hfr := (hm.inRange f).mp (h'.runs.kernel (f, num) (by rw [hruns]; simp) f hff).1
            have := (h.inv.cm.flag f hfr).mpr ‹_›
            rw [hw f hfind] at this
            cases this
        · rfl
    · rw [hruns]
      by_cases hgl : g ∈ List.range' f num
      · exact Or.inr ⟨(f, num), by simp, hgl⟩
      · rcases hold g hgl hg with h0 | ⟨r, hr, hgr⟩
        · exact Or.inl h0
        · exact Or.inr ⟨r, List.mem_append_left _ hr, hgr⟩
  | releaseKframes f =>
    obtain ⟨rfl, rfl, hruns⟩ := he
    refine ⟨fun r hr => ?_, fun g hg => ?_⟩
    · rw [hruns, List.mem_filter] at hr
      refine hsay r hr.1 fun e => ?_
      cases e
      simp at hr
    · have hgl : g ∉ List.range' f (t.vm.cm.coreDetails f).kern := fun hgl => by
        rw [h'.kernelOwned_iff, setOwn_of_mem hgl] at hg
        cases hg.2
      rcases hold g hgl hg with h0 | ⟨r, hr, hgr⟩
      · exact Or.inl h0
      · refine Or.inr ⟨r, ?_, hgr⟩
        rw [hruns, List.mem_filter]
        refine ⟨hr, ?_⟩
        rw [bne_iff_ne]
        rintro rfl
        rw [ht.full r hr] at hgl
        exact hgl hgr
  | getppage => exact hsame he.1 he.2.1 (by simp)
  | finishPaging g p => exact hsame he.1 he.2.1 (by simp)
  | releaseFrame g => exact hsame he.1 he.2.1 (by simp)
  | other pds mem swap tlb => exact hsame he.1 he.2.1 (by simp)

theorem CmRun.Valid.nothing_lost (h : t₀.Valid) (h₀ : t₀.runs = [])
    (hr : Reach cmStep (fun t op => op.callable t ∧ op.whole t) t₀ t) (hend : t.runs = []) {g : Nat}
    (hg : t.kernelOwned g) : t₀.kernelOwned g := by
  have hI : t.Valid ∧ t₀.Tidy t := by
    have hstart : t₀.Tidy t₀ := ⟨by simp [h₀], fun g hg => Or.inl hg⟩
    refine hr.invariant (I := fun t => t.Valid ∧ t₀.Tidy t) ⟨h, hstart⟩ ?_
    rintro u op u' ⟨⟨own, fl, hu⟩, ht⟩ ⟨hc, hw⟩ hs
    obtain ⟨l, o, -, ⟨fl', h'⟩, -⟩ := cmStep_effect hu hc hs
    exact ⟨⟨_, fl', h'⟩, ht.step hu hc hw hs⟩
  rcases hI.2.known g hg with hg | ⟨r, hr, -⟩
  · exact hg
  · rw [hend] at hr; cases hr

/-- Requests and releases are inverse, run by run and over whole runs, for
the requests whose run does not begin with a free frame. -/
theorem kframes_inverse_iff (h : t.Valid) :
    (∀ n t', 1 ≤ n → cmStep t (.requestKframes n) = .ok t' →
      ((∃ f, Inverse t t' f n) ↔ (CmOp.requestKframes n).whole t)) ∧
    (t.runs = [] → ∀ t', Reach cmStep (fun t op => op.callable t ∧ op.whole t) t t' → t'.runs = [] →
      ∀ g, t'.kernelOwned g → t.kernelOwned g) := by
  refine ⟨fun n t' hn hs => ?_, fun h₀ t' hr hend g hg => h.nothing_lost h₀ hr hend hg⟩
  obtain ⟨own, fl, h⟩ := h
  exact h.inverse_iff hn hs

theorem kframes_inverse_iff_paged : ∃ t t', Reach cmStep (fun t op => op.callable t) (CmRun.boot tiny) t ∧
    cmStep t (.requestKframes 2) = .ok t' ∧ ∃ f, Inverse t t' f 2 := by
  obtain ⟨t, hr, hok, hpaged⟩ : ∃ t, Reach cmStep (fun t op => op.callable t) (CmRun.boot tiny) t ∧
      (cmStep t (.requestKframes 2)).toBool = true ∧
      (findKframes t.vm.cm 2).all (fun f => !(t.vm.cm.coreDetails f).free) = true :=
    Reach.of_leads (l := fillAndTake.take 6) (by decide)
  cases hs : cmStep t (.requestKframes 2) with
  | error c => rw [hs] at hok; cases hok
  | ok t' =>
    refine ⟨t, t', hr, hs, ((kframes_inverse_iff ((CmRun.boot_valid tiny).reach hr)).1 2 t' (by decide) hs).mpr
      (Or.inr fun f hf => ?_)⟩
    rw [hf] at hpaged
    simpa using hpaged

theorem kframes_lost : ¬ (CmRun.boot tiny).kernelOwned 2 ∧
    ∃ t, Reach cmStep (fun t op => op.callable t) (CmRun.boot tiny) t ∧ t.runs = [] ∧ t.kernelOwned 2 :=
  ⟨by decide, Reach.of_leads (l := [.requestKframes 2, .releaseKframes 1]) (by decide)⟩

end Os161
