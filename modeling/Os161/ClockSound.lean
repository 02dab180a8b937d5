import Mathlib.Data.List.Find
import Os161.EvictSound

/-!
# The clock: which frame `cm_getppage` gives

`clockVictim` is the second-chance rule as a function of the state: the first
frame in clock order whose page is not in use, or the first with any page.
The two loops of `cm_push_to_swap` follow it.
-/

namespace Os161

open Linked Outcome

def clockOrder (c : Cm) (n : Nat) : List Nat :=
  (List.range n).map fun i => clockToIndex c ((c.clockPointer + i) % (c.size - c.lowestFrame))

def inUse (s : Vm) (i : Nat) : Bool :=
  match (s.cm.coreDetails i).pd with
  | none => false
  | some p => (s.pds p).use

def isUnused (s : Vm) (i : Nat) : Bool := (s.cm.coreDetails i).kern == 0 && !inUse s i

def isPaged (s : Vm) (i : Nat) : Bool := (s.cm.coreDetails i).kern == 0

def clockVictim (s : Vm) : Option Nat :=
  let order := clockOrder s.cm (s.cm.size - s.cm.lowestFrame)
  (order.find? (isUnused s)).or (order.find? (isPaged s))

def Owner.Fits : Owner → CmDetail → Prop
  | .free, d => d.kern = 0
  | .kernel, d => 0 < d.kern
  | .user _, d => d.kern = 0
  | .busy, d => d.kern = 1 ∨ (d.kern = 0 ∧ d.pd = none)

def KernOk (own : Nat → Owner) (c : Cm) : Prop := ∀ f, c.InRange f → (own f).Fits (c.coreDetails f)

def HalfSetUp (own : Nat → Owner) (c : Cm) (f : Nat) : Prop :=
  c.InRange f ∧ own f = .busy ∧ (c.coreDetails f).kern = 0

def NoHalf (own : Nat → Owner) (c : Cm) : Prop := ∀ f, ¬ HalfSetUp own c f

def HalfAtClock (own : Nat → Owner) (c : Cm) : Prop :=
  ∀ f, HalfSetUp own c f → clockToIndex c c.clockPointer = f

variable {G : Ghost} {own : Nat → Owner} {fl : List Nat} {s s' : Vm} {f n : Nat} {p : PdPtr} {sl : List Nat}

theorem KernOk.kernel {c : Cm} (hk : KernOk own c) (hr : c.InRange f) (ho : own f = .kernel) :
    0 < (c.coreDetails f).kern := by
  have := hk f hr
  rwa [ho] at this

theorem KernOk.user {c : Cm} (hk : KernOk own c) (hr : c.InRange f) (ho : own f = .user p) :
    (c.coreDetails f).kern = 0 := by
  have := hk f hr
  rwa [ho] at this

theorem KernOk.paged (hk : KernOk own s.cm) (hc : CmOk own [] s.cm) (hh : NoHalf own s.cm) (hr : s.cm.InRange f)
    (h0 : (s.cm.coreDetails f).kern = 0) : ∃ p, own f = .user p := by
  cases ho : own f with
  | free => exact absurd ((hc.mem_fl f).mpr ⟨hr, ho⟩) (by simp)
  | kernel => exact absurd (hk.kernel hr ho) (by omega)
  | user p => exact ⟨p, rfl⟩
  | busy => exact absurd ⟨hr, ho, h0⟩ (hh f)

theorem KernOk.congr {c c' : Cm} {own' : Nat → Owner} (hk : KernOk own c) (hr : ∀ g, c'.InRange g ↔ c.InRange g)
    (h : ∀ g, c.InRange g → (own' g).Fits (c'.coreDetails g) ∨ (own' g = own g ∧
      (c'.coreDetails g).kern = (c.coreDetails g).kern ∧ (c'.coreDetails g).pd = (c.coreDetails g).pd)) :
    KernOk own' c' := by
  intro g hg
  have hg := (hr g).mp hg
  rcases h g hg with hf | ⟨ho, hkern, hpd⟩
  · exact hf
  · have := hk g hg
    rw [ho]
    cases e : own g <;> simp_all [Owner.Fits]

/-! ## Clock order -/

structure ClockOk (c : Cm) : Prop where
  room : c.lowestFrame < c.size
  clock : c.clockPointer < c.size - c.lowestFrame

theorem CmOk.clockOk {c : Cm} (h : CmOk own fl c) : ClockOk c := ⟨h.room, h.clock⟩

theorem clockOrder_succ (c : Cm) (n : Nat) (hc : c.clockPointer < c.size - c.lowestFrame) :
    clockOrder c (n + 1) = clockToIndex c c.clockPointer :: clockOrder (advanceClock c) n := by
  unfold clockOrder
  rw [List.range_succ_eq_map, List.map_cons, List.map_map]
  congr 1
  · rw [Nat.add_zero, Nat.mod_eq_of_lt hc]
  · refine List.map_congr_left fun i _ => ?_
    simp only [Function.comp, advanceClock, clockToIndex, Nat.mod_add_mod]
    rw [show c.clockPointer + i.succ = c.clockPointer + 1 + i by omega]

theorem clock_inRange {c : Cm} (hc : ClockOk c) : c.InRange (clockToIndex c c.clockPointer) := by
  have := hc.clock
  have := hc.room
  unfold clockToIndex Cm.InRange
  omega

theorem mem_clockOrder {c : Cm} (hc : ClockOk c) {i : Nat} (h : i ∈ clockOrder c n) : c.InRange i := by
  obtain ⟨j, -, rfl⟩ := List.mem_map.mp h
  have := Nat.mod_lt (c.clockPointer + j) (Nat.sub_pos_of_lt hc.room)
  have := hc.room
  unfold clockToIndex Cm.InRange
  omega

theorem mem_clockOrder_round {c : Cm} (hc : ClockOk c) {i : Nat} (h : c.InRange i) :
    i ∈ clockOrder c (c.size - c.lowestFrame) := by
  have hlt := hc.clock
  have hr := hc.room
  unfold Cm.InRange at h
  refine List.mem_map.mpr ⟨(i - c.lowestFrame + (c.size - c.lowestFrame - c.clockPointer)) % (c.size - c.lowestFrame),
    List.mem_range.mpr (Nat.mod_lt _ (by omega)), ?_⟩
  rw [Nat.add_mod_mod, show c.clockPointer + (i - c.lowestFrame + (c.size - c.lowestFrame - c.clockPointer)) =
    i - c.lowestFrame + (c.size - c.lowestFrame) by omega, Nat.add_mod_right, Nat.mod_eq_of_lt (by omega)]
  unfold clockToIndex
  omega

theorem clock_not_mem {c : Cm} (hc : ClockOk c) (hn : n + 1 ≤ c.size - c.lowestFrame) :
    clockToIndex c c.clockPointer ∉ clockOrder (advanceClock c) n := by
  intro h
  obtain ⟨j, hj, e⟩ := List.mem_map.mp h
  have hj := List.mem_range.mp hj
  have hlt := hc.clock
  simp only [advanceClock, clockToIndex, Nat.mod_add_mod] at e
  have hm : (c.clockPointer + 1 + j) % (c.size - c.lowestFrame) = c.clockPointer := by omega
  rcases Nat.lt_or_ge (c.clockPointer + 1 + j) (c.size - c.lowestFrame) with h1 | h1
  · rw [Nat.mod_eq_of_lt h1] at hm; omega
  · rw [Nat.mod_eq_sub_mod h1, Nat.mod_eq_of_lt (by omega)] at hm; omega

theorem clockOrder_congr {c c' : Cm} (hs : c'.size = c.size) (hl : c'.lowestFrame = c.lowestFrame)
    (hp : c'.clockPointer = c.clockPointer) (n : Nat) : clockOrder c' n = clockOrder c n := by
  unfold clockOrder clockToIndex
  rw [hs, hl, hp]

/-! ## One round of the clock -/

structure Scans (s s' : Vm) : Prop where
  cm : s'.cm = { s.cm with clockPointer := s'.cm.clockPointer }
  details : ∀ q, SameDetail (s.pds q) (s'.pds q)
  mem : s'.mem = s.mem
  tlb : s.tlb.Shrinks s'.tlb

structure Takes (s s' : Vm) (f : Nat) (p : PdPtr) : Prop where
  size : s'.cm.size = s.cm.size
  lowest : s'.cm.lowestFrame = s.cm.lowestFrame
  clock : clockToIndex s'.cm s'.cm.clockPointer = f
  kern : ∀ g, (s'.cm.coreDetails g).kern = (s.cm.coreDetails g).kern
  pd : ∀ g, (s'.cm.coreDetails g).pd = if g = f then none else (s.cm.coreDetails g).pd
  details : ∀ q, q ≠ p → SameDetail (s.pds q) (s'.pds q)
  mem : s'.mem = s.mem
  tlb : s.tlb.Shrinks s'.tlb

theorem SameDetail.refl (d : PageDetail) : SameDetail d d := rfl

theorem SameDetail.trans {d d' d'' : PageDetail} (h : SameDetail d d') (h' : SameDetail d' d'') : SameDetail d d'' := by
  unfold SameDetail at *
  rw [h', h]

theorem SameDetail.vaddr {d d' : PageDetail} (h : SameDetail d d') : d'.vaddr = d.vaddr := by
  rw [h]

theorem Scans.refl (s : Vm) : Scans s s := ⟨rfl, fun _ => rfl, rfl, .refl _⟩

theorem Scans.trans {s'' : Vm} (h : Scans s s') (h' : Scans s' s'') : Scans s s'' :=
  ⟨by rw [h'.cm, h.cm], fun q => (h.details q).trans (h'.details q), h'.mem.trans h.mem, h.tlb.trans h'.tlb⟩

theorem Scans.takes {s'' : Vm} (h : Scans s s') (h' : Takes s' s'' f p) : Takes s s'' f p where
  size := by rw [h'.size, h.cm]
  lowest := by rw [h'.lowest, h.cm]
  clock := h'.clock
  kern g := by rw [h'.kern, h.cm]
  pd g := by rw [h'.pd, h.cm]
  details q hq := (h.details q).trans (h'.details q hq)
  mem := h'.mem.trans h.mem
  tlb := h.tlb.trans h'.tlb

theorem Evicts.takes (h : Evicts s s' f p) (hf : clockToIndex s.cm s.cm.clockPointer = f) : Takes s s' f p where
  size := h.same.1
  lowest := h.same.2.1
  clock := by
    unfold clockToIndex at *
    rw [h.same.2.2, h.same.2.1]; exact hf
  kern := h.kern
  pd := h.pd
  details q hq := by rw [h.pds q hq]; exact SameDetail.refl _
  mem := h.mem
  tlb := h.tlb

theorem CmOk.setClock {c : Cm} {k : Nat} (h : CmOk own fl c) (hk : k < c.size - c.lowestFrame) :
    CmOk own fl { c with clockPointer := k } :=
  ⟨h.init, h.room, h.ram, hk, h.id_eq, h.links, h.mem_fl, h.flag⟩

theorem advanceClock_ok {c : Cm} (h : CmOk own fl c) : CmOk own fl (advanceClock c) :=
  h.setClock (Nat.mod_lt _ (Nat.sub_pos_of_lt h.room))

theorem Good.advance (h : Good G own fl s) :
    Good G own fl { s with cm := advanceClock s.cm } ∧ Scans s { s with cm := advanceClock s.cm } := by
  obtain ⟨sl, hc⟩ := h.core
  refine ⟨h.congr (advanceClock_ok hc.cm) (fun _ => Iff.rfl) (fun _ _ => Iff.rfl) (fun _ => rfl) (fun _ _ => rfl)
    (fun _ _ _ _ => rfl) rfl fun m hm => ?_, rfl, fun _ => rfl, rfl, .refl _⟩
  exact (h.tlb m hm).congr (fun _ => Iff.rfl) (fun _ _ => Iff.rfl) rfl fun _ _ => rfl

def passed (s : Vm) (p : PdPtr) (tlb : Tlb) : Vm :=
  { s.modifyPd p fun d => { d with use := false } with tlb := tlb, cm := advanceClock s.cm }

theorem passed_details (s : Vm) (p : PdPtr) (tlb : Tlb) (q : PdPtr) :
    SameDetail (s.pds q) ((passed s p tlb).pds q) := by
  simp only [passed, Vm.modifyPd_pds]
  split
  · subst_vars; rfl
  · rfl

theorem Good.secondChance (h : Good G own fl s) (hl : G.live p) :
    ∃ tlb, tlbInvalidateVaddr s.tlb (s.pds p).vaddr = .ok tlb ∧ Good G own fl (passed s p tlb) ∧
      Scans s (passed s p tlb) := by
  obtain ⟨sl, hc⟩ := h.core
  have hal := hc.pg.aligned p hl
  obtain ⟨tlb, htlb, -⟩ := tlbInvalidateVaddr_spec s.tlb hal
  have hd := passed_details s p tlb
  refine ⟨tlb, htlb, h.congr (advanceClock_ok hc.cm) (fun _ => Iff.rfl) (fun _ _ => Iff.rfl) (fun _ => rfl)
    (fun q _ => hd q) (fun _ _ _ _ => rfl) rfl fun m hm => ?_, rfl, hd, rfl,
    tlbInvalidateVaddr_shrinks hal htlb⟩
  exact (tlbInvalidateVaddr_keeps (h.tlb m hm) htlb hal).1.congr (fun _ => Iff.rfl) (fun _ _ => Iff.rfl) rfl
    fun q _ => (hd q).vaddr

/-! ## The two loops -/

theorem isUnused_passed (hc : Core G.live own fl sl s) {g : Nat} (hf : s.cm.InRange f) (hu : own f = .user p)
    (hg : s.cm.InRange g) (hgf : g ≠ f) (hgu : (s.cm.coreDetails g).kern = 0 → ∃ q, own g = .user q) (tlb : Tlb) :
    isUnused (passed s p tlb) g = isUnused s g := by
  by_cases h0 : (s.cm.coreDetails g).kern = 0
  · obtain ⟨q, hq⟩ := hgu h0
    have hqp : q ≠ p := by
      rintro rfl
      exact hgf (hc.pg.inj hg hf hq hu)
    have hpd := (hc.pg.user g q hg hq).2.1
    simp [isUnused, inUse, passed, advanceClock, hpd, Vm.modifyPd_pds, hqp]
  · have : ((s.cm.coreDetails g).kern == 0) = false := by simpa using h0
    simp only [isUnused, passed, advanceClock, this, Bool.false_and]

section
variable {i : Nat} (hi : clockToIndex s.cm s.cm.clockPointer = i)
include hi

theorem pushUnused_skip (n : Nat) (h0 : (s.cm.coreDetails i).kern ≠ 0) :
    pushUnused (n + 1) s = pushUnused n { s with cm := advanceClock s.cm } := by
  conv_lhs => unfold pushUnused
  simp only [hi, h0, if_false]

theorem pushUnused_pass (n : Nat) {tlb : Tlb} (h0 : (s.cm.coreDetails i).kern = 0)
    (hpd : (s.cm.coreDetails i).pd = some p) (hu : (s.pds p).use = true)
    (ht : tlbInvalidateVaddr s.tlb (s.pds p).vaddr = .ok tlb) :
    pushUnused (n + 1) s = pushUnused n (passed s p tlb) := by
  conv_lhs => unfold pushUnused
  simp only [hi, h0, if_true, hpd, hu, Vm.modifyPd_tlb, Vm.modifyPd_self, ht]
  rfl

theorem pushUnused_take (n : Nat) (h0 : (s.cm.coreDetails i).kern = 0) (hpd : (s.cm.coreDetails i).pd = some p)
    (hu : (s.pds p).use = false) :
    pushUnused (n + 1) s = cmFreeCore s i >>= fun s' => .ok (some (s'.cm.coreDetails i).id, s') := by
  conv_lhs => unfold pushUnused
  simp only [hi, h0, if_true, hpd, hu, Bool.false_eq_true, if_false]

end

theorem pushUnused_good (h : Good G own [] s) (hk : KernOk own s.cm) (hh : NoHalf own s.cm)
    (hn : n ≤ s.cm.size - s.cm.lowestFrame) :
    Post (pushUnused n s)
      (fun r => match (clockOrder s.cm n).find? (isUnused s) with
        | some f => r.1 = some f ∧ ∃ p, s.cm.InRange f ∧ own f = .user p ∧
            Good G (Function.update own f .busy) [] r.2 ∧ Takes s r.2 f p
        | none => r.1 = none ∧ Good G own [] r.2 ∧ Scans s r.2 ∧
            r.2.cm.clockPointer = (s.cm.clockPointer + n) % (s.cm.size - s.cm.lowestFrame))
      (fun c => c.why = .outOfSwapSpace ∧ SwapFull G.live c.vm) := by
  induction n generalizing s with
  | zero =>
    obtain ⟨sl, hc⟩ := h.core
    exact ⟨rfl, h, Scans.refl s, by simp [Nat.mod_eq_of_lt hc.cm.clock]⟩
  | succ n ih =>
    obtain ⟨sl, hc⟩ := h.core
    rw [clockOrder_succ s.cm n hc.cm.clock]
    have hin := clock_inRange hc.cm.clockOk
    have hout := clock_not_mem hc.cm.clockOk hn
    generalize hi : clockToIndex s.cm s.cm.clockPointer = i at hin hout ⊢
    -- what the rest of the loop does from a state that differs by this round
    have rest : ∀ s₁, s₁.cm = advanceClock s.cm → Good G own [] s₁ → Scans s s₁ → isUnused s i = false →
        (∀ g ∈ clockOrder (advanceClock s.cm) n, isUnused s₁ g = isUnused s g) →
        Post (pushUnused n s₁)
          (fun r => match (i :: clockOrder (advanceClock s.cm) n).find? (isUnused s) with
            | some f => r.1 = some f ∧ ∃ p, s.cm.InRange f ∧ own f = .user p ∧
                Good G (Function.update own f .busy) [] r.2 ∧ Takes s r.2 f p
            | none => r.1 = none ∧ Good G own [] r.2 ∧ Scans s r.2 ∧
                r.2.cm.clockPointer = (s.cm.clockPointer + (n + 1)) % (s.cm.size - s.cm.lowestFrame))
          (fun c => c.why = .outOfSwapSpace ∧ SwapFull G.live c.vm) := by
      intro s₁ hcm h₁ hs₁ hiu hsame
      rw [List.find?_cons, hiu]
      have hr := ih h₁ (by rw [hcm]; exact hk) (by rw [hcm]; exact hh)
        (by rw [hcm]; exact Nat.le_of_succ_le hn)
      rw [hcm, List.find?_congr hsame] at hr
      refine hr.mono (fun r hr => ?_) fun c hc => hc
      cases hfind : (clockOrder (advanceClock s.cm) n).find? (isUnused s) with
      | none =>
        rw [hfind] at hr
        obtain ⟨h1, h2, h3, h4⟩ := hr
        refine ⟨h1, h2, hs₁.trans h3, h4.trans ?_⟩
        simp only [advanceClock, Nat.mod_add_mod]
        congr 1; omega
      | some f =>
        rw [hfind] at hr
        obtain ⟨h1, p, h2, h3, h4, h5⟩ := hr
        exact ⟨h1, p, h2, h3, h4, hs₁.takes h5⟩
    by_cases h0 : (s.cm.coreDetails i).kern = 0
    · obtain ⟨p, hu⟩ := hk.paged hc.cm hh hin h0
      obtain ⟨hl, hpd, -, -⟩ := hc.pg.user i p hin hu
      cases huse : (s.pds p).use with
      | true =>
        obtain ⟨tlb, htlb, hg₁, hs₁⟩ := h.secondChance hl
        rw [pushUnused_pass hi n h0 hpd huse htlb]
        refine rest _ rfl hg₁ hs₁ (by simp [isUnused, inUse, hpd, huse]) fun g hg => ?_
        have hgr := mem_clockOrder (advanceClock_ok hc.cm).clockOk hg
        exact isUnused_passed hc hin hu hgr (fun e => hout (e ▸ hg)) (hk.paged hc.cm hh hgr) tlb
      | false =>
        have hiu : isUnused s i = true := by simp [isUnused, inUse, hpd, huse, h0]
        rw [List.find?_cons, hiu, pushUnused_take hi n h0 hpd huse]
        refine (cmFreeCore_good (o := .busy) trivial h hin hu).bind fun s' _ ⟨hg, he⟩ => ?_
        have hid : (s'.cm.coreDetails i).id = i := by rw [he.id]; exact hc.cm.id_eq i hin
        exact ⟨by rw [hid], p, hin, hu, hg, he.takes hi⟩
    · rw [pushUnused_skip hi n h0]
      obtain ⟨hg₁, hs₁⟩ := h.advance
      exact rest _ rfl hg₁ hs₁ (by simp [isUnused, h0]) fun g _ => rfl

theorem pushAny_good (h : Good G own [] s) (hk : KernOk own s.cm) (hh : NoHalf own s.cm) :
    Post (pushAny n s)
      (fun r => match (clockOrder s.cm n).find? (isPaged s) with
        | some f => r.1 = some f ∧ ∃ p, s.cm.InRange f ∧ own f = .user p ∧
            Good G (Function.update own f .busy) [] r.2 ∧ Takes s r.2 f p
        | none => r.1 = none)
      (fun c => c.why = .outOfSwapSpace ∧ SwapFull G.live c.vm) := by
  induction n generalizing s with
  | zero => rfl
  | succ n ih =>
    obtain ⟨sl, hc⟩ := h.core
    rw [clockOrder_succ s.cm n hc.cm.clock]
    have hin := clock_inRange hc.cm.clockOk
    generalize hi : clockToIndex s.cm s.cm.clockPointer = i at hin ⊢
    unfold pushAny
    simp only [hi]
    by_cases h0 : (s.cm.coreDetails i).kern = 0
    · obtain ⟨p, hu⟩ := hk.paged hc.cm hh hin h0
      obtain ⟨hl, hpd, -, -⟩ := hc.pg.user i p hin hu
      have hip : isPaged s i = true := by simp [isPaged, h0]
      rw [List.find?_cons, hip]
      simp only [h0, if_true, hpd]
      refine (cmFreeCore_good (o := .busy) trivial h hin hu).bind fun s' _ ⟨hg, he⟩ => ?_
      have hid : (s'.cm.coreDetails i).id = i := by rw [he.id]; exact hc.cm.id_eq i hin
      exact ⟨by rw [hid], p, hin, hu, hg, he.takes hi⟩
    · have hip : isPaged s i = false := by simp [isPaged, h0]
      rw [List.find?_cons, hip]
      simp only [h0, if_false]
      obtain ⟨hg₁, hs₁⟩ := h.advance
      refine (ih hg₁ hk hh).mono (fun r hr => ?_) fun c hc => hc
      change match (clockOrder (advanceClock s.cm) n).find? (isPaged s) with | some f => _ | none => _ at hr
      cases hfind : (clockOrder (advanceClock s.cm) n).find? (isPaged s) with
      | none => rw [hfind] at hr; exact hr
      | some f =>
        rw [hfind] at hr
        obtain ⟨h1, p, h2, h3, h4, h5⟩ := hr
        exact ⟨h1, p, h2, h3, h4, hs₁.takes h5⟩

theorem cmPushToSwap_good (h : Good G own [] s) (hk : KernOk own s.cm) (hh : NoHalf own s.cm) :
    Post (cmPushToSwap s)
      (fun r => clockVictim s = some r.1 ∧ ∃ p, s.cm.InRange r.1 ∧ own r.1 = .user p ∧
        Good G (Function.update own r.1 .busy) [] r.2 ∧ Takes s r.2 r.1 p)
      (fun c => (c.why = .outOfSwapSpace ∧ SwapFull G.live c.vm) ∨
        (c.why = .tooManyKernelPages ∧ clockVictim s = none)) := by
  obtain ⟨sl, hc⟩ := h.core
  unfold cmPushToSwap
  refine ((pushUnused_good h hk hh le_rfl).mono (fun r hr => hr) fun c hc => Or.inl hc).bind ?_
  rintro ⟨r, s₁⟩ - hr
  cases hfind : (clockOrder s.cm (s.cm.size - s.cm.lowestFrame)).find? (isUnused s) with
  | some f =>
    rw [hfind] at hr
    obtain ⟨rfl, p, h2, h3, h4, h5⟩ := hr
    exact ⟨by simp [clockVictim, hfind], p, h2, h3, h4, h5⟩
  | none =>
    rw [hfind] at hr
    obtain ⟨rfl, hg₁, hs₁, hclock⟩ := hr
    have hpaged : isPaged s₁ = isPaged s := by funext i; simp only [isPaged]; rw [hs₁.cm]
    have horder : clockOrder s₁.cm (s₁.cm.size - s₁.cm.lowestFrame) =
        clockOrder s.cm (s.cm.size - s.cm.lowestFrame) := by
      have hsz : s₁.cm.size = s.cm.size := by rw [hs₁.cm]
      have hlo : s₁.cm.lowestFrame = s.cm.lowestFrame := by rw [hs₁.cm]
      rw [hsz, hlo]
      -- the first loop went once round
      exact clockOrder_congr hsz hlo (by rw [hclock, Nat.add_mod_right, Nat.mod_eq_of_lt hc.cm.clock]) _
    have hr₂ := pushAny_good (n := s₁.cm.size - s₁.cm.lowestFrame) hg₁
      (by rw [hs₁.cm]; exact hk) (by rw [hs₁.cm]; exact hh)
    rw [horder, hpaged] at hr₂
    have hv : clockVictim s = (clockOrder s.cm (s.cm.size - s.cm.lowestFrame)).find? (isPaged s) := by
      simp [clockVictim, hfind]
    refine (hr₂.mono (fun r hr => hr) fun c hc => Or.inl hc).bind ?_
    rintro ⟨r, s₂⟩ - hr
    rw [← hv] at hr
    cases hfind₂ : clockVictim s with
    | some f =>
      rw [hfind₂] at hr
      obtain ⟨rfl, p, h2, h3, h4, h5⟩ := hr
      rw [show s₁.cm.InRange f ↔ s.cm.InRange f by rw [hs₁.cm]; rfl] at h2
      exact ⟨rfl, p, h2, h3, h4, hs₁.takes h5⟩
    | none =>
      rw [hfind₂] at hr
      obtain rfl : r = none := hr
      exact Or.inr ⟨rfl, rfl⟩

/-! ## Getting a frame -/

structure Gives (own : Nat → Owner) (fl : List Nat) (s : Vm) (fl' : List Nat) (s' : Vm) (f : Nat) : Prop where
  inRange : s.cm.InRange f
  size : s'.cm.size = s.cm.size
  lowest : s'.cm.lowestFrame = s.cm.lowestFrame
  kern : ∀ g, g ≠ f → (s'.cm.coreDetails g).kern = (s.cm.coreDetails g).kern
  details : ∀ q, own f ≠ .user q → SameDetail (s.pds q) (s'.pds q)
  mem : s'.mem = s.mem
  tlb : s.tlb.Shrinks s'.tlb
  way : (fl = f :: fl' ∧ own f = .free ∧ (s'.cm.coreDetails f).kern = 1 ∧ s'.cm.clockPointer = s.cm.clockPointer) ∨
    (fl = [] ∧ fl' = [] ∧ NoHalf own s.cm ∧ (∃ p, own f = .user p) ∧ clockVictim s = some f ∧
      (s'.cm.coreDetails f).kern = 0 ∧ clockToIndex s'.cm s'.cm.clockPointer = f)

theorem cmGetppage_free (h : Good G own (f :: fl) s) (hk : KernOk own s.cm) :
    ∃ s', cmGetppage s = .ok (f, s') ∧ Good G (Function.update own f .busy) fl s' ∧
      KernOk (Function.update own f .busy) s'.cm ∧ Gives own (f :: fl) s fl s' f := by
  obtain ⟨sl, hc⟩ := h.core
  have hf := (hc.cm.mem_fl f).mp (List.mem_cons_self ..)
  have hs := popped_same hc.cm
  have hkern := fun g => (popped_flags hc.cm g).1
  have hu : ∀ g q, Function.update own f .busy g = .user q ↔ own g = .user q := fun g q => by
    by_cases e : g = f
    · simp [e, hf.2]
    · simp [e]
  refine ⟨{ s with cm := popped s.cm }, ?_, ?_, ?_, ?_⟩
  · unfold cmGetppage
    rw [freeFrameListPop_cons hc.cm]
    simp only [hs.id, hc.cm.id_eq f hf.1]
  · refine h.congr (popped_ok (by simp) hc.cm) hs.inRange hu hs.pd (fun _ _ => SameDetail.refl _) (fun _ _ _ _ => rfl)
      rfl fun m hm => ?_
    exact (h.tlb m hm).congr hs.inRange hu rfl fun _ _ => rfl
  · refine hk.congr hs.inRange fun g _ => ?_
    rcases eq_or_ne g f with rfl | hg
    · left
      rw [Function.update_self]
      exact Or.inl (by rw [hkern, if_pos rfl])
    · exact Or.inr ⟨Function.update_of_ne hg .., by rw [hkern, if_neg hg], hs.pd g⟩
  · refine ⟨hf.1, hs.size, hs.lowest, fun g hg => ?_, fun _ _ => SameDetail.refl _, rfl, .refl _,
      Or.inl ⟨rfl, hf.2, ?_, hs.clock⟩⟩
    · rw [hkern, if_neg hg]
    · rw [hkern, if_pos rfl]

def GetFails (G : Ghost) (own : Nat → Owner) (fl : List Nat) (s : Vm) (c : Crash) : Prop :=
  (c.why = .outOfSwapSpace ∧ SwapFull G.live c.vm) ∨
    (c.why = .tooManyKernelPages ∧ fl = [] ∧ ∀ g q, s.cm.InRange g → own g ≠ .user q) ∨
    (c.why = .freeFramesNotInFreeList ∧ fl = [] ∧ ∃ f, HalfSetUp own s.cm f)

theorem clockVictim_none (hc : CmOk own fl s.cm) (h : clockVictim s = none) (hr : s.cm.InRange f) :
    (s.cm.coreDetails f).kern ≠ 0 := by
  simp only [clockVictim, Option.or_eq_none_iff, List.find?_eq_none] at h
  simpa [isPaged] using h.2 f (mem_clockOrder_round hc.clockOk hr)

theorem cmGetppage_evict (h : Good G own [] s) (hk : KernOk own s.cm) (hh : NoHalf own s.cm) :
    Post (cmGetppage s)
      (fun r => Good G (Function.update own r.1 .busy) [] r.2 ∧ KernOk (Function.update own r.1 .busy) r.2.cm ∧
        Gives own [] s [] r.2 r.1)
      (GetFails G own [] s) := by
  obtain ⟨sl, hc⟩ := h.core
  unfold cmGetppage
  rw [freeFrameListPop_nil hc.cm]
  refine (cmPushToSwap_good h hk hh).mono ?_ fun c => Or.imp_right fun ⟨hw, hv⟩ =>
    Or.inl ⟨hw, rfl, fun g q hg hq => ?_⟩
  · rintro ⟨f, s'⟩ ⟨hv, p, hr, hu, hg, ht⟩
    have hin : ∀ g, s'.cm.InRange g ↔ s.cm.InRange g := fun g => by unfold Cm.InRange; rw [ht.size, ht.lowest]
    have h0 : (s'.cm.coreDetails f).kern = 0 := by rw [ht.kern]; exact hk.user hr hu
    refine ⟨hg, ?_, hr, ht.size, ht.lowest, fun g _ => ht.kern g, fun q hq => ht.details q ?_, ht.mem, ht.tlb,
      Or.inr ⟨rfl, rfl, hh, ⟨p, hu⟩, hv, h0, ht.clock⟩⟩
    · refine hk.congr hin fun g _ => ?_
      rcases eq_or_ne g f with rfl | hg
      · left
        rw [Function.update_self]
        exact Or.inr ⟨h0, by rw [ht.pd, if_pos rfl]⟩
      · exact Or.inr ⟨Function.update_of_ne hg .., ht.kern g, by rw [ht.pd, if_neg hg]⟩
    · rintro rfl; exact hq hu
  · exact clockVictim_none hc.cm hv hg (hk.user hg hq)

theorem cmGetppage_half (hc : CmOk own [] s.cm) (hk : KernOk own s.cm) (hf : HalfSetUp own s.cm f)
    (hat : clockToIndex s.cm s.cm.clockPointer = f) :
    cmGetppage s = .error { why := .freeFramesNotInFreeList, vm := s } := by
  obtain ⟨hr, hb, h0⟩ := hf
  have hpd : (s.cm.coreDetails f).pd = none := by
    have := hk f hr
    rw [hb] at this
    rcases this with h1 | h1
    · omega
    · exact h1.2
  obtain ⟨n, hn⟩ : ∃ n, s.cm.size - s.cm.lowestFrame = n + 1 :=
    ⟨s.cm.size - s.cm.lowestFrame - 1, by have := hc.room; omega⟩
  unfold cmGetppage
  rw [freeFrameListPop_nil hc]
  simp only [cmPushToSwap, hn, pushUnused, hat, h0, if_true, hpd]
  rfl

theorem cmGetppage_good (h : Good G own fl s) (hk : KernOk own s.cm) (hh : HalfAtClock own s.cm) :
    Post (cmGetppage s)
      (fun r => ∃ fl', Good G (Function.update own r.1 .busy) fl' r.2 ∧
        KernOk (Function.update own r.1 .busy) r.2.cm ∧ Gives own fl s fl' r.2 r.1)
      (GetFails G own fl s) := by
  cases fl with
  | nil =>
    by_cases hno : NoHalf own s.cm
    · exact (cmGetppage_evict h hk hno).mono (fun r hr => ⟨[], hr⟩) fun c hc => hc
    · obtain ⟨sl, hc⟩ := h.core
      obtain ⟨f, hf⟩ : ∃ f, HalfSetUp own s.cm f := by simpa [NoHalf] using hno
      rw [cmGetppage_half hc.cm hk hf (hh f hf)]
      exact Or.inr (Or.inr ⟨rfl, rfl, f, hf⟩)
  | cons f fl =>
    obtain ⟨s', he, hg, hk', hv⟩ := cmGetppage_free h hk
    rw [he]
    exact ⟨fl, hg, hk', hv⟩

end Os161
