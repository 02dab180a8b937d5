import Os161.ClockSound

/-!
# Second chance, exactly

What `cm_push_to_swap` does in any state in which every frame is the kernel's
or a page's: which frame it takes, which pages lose their use bit, and that
nothing else changes.
-/

namespace Os161

open Outcome

def Vm.Holds (s : Vm) (f : Nat) (p : PdPtr) : Prop :=
  (s.cm.coreDetails f).kern = 0 ∧ (s.cm.coreDetails f).pd = some p

/-- A core map without free frames: each one is the kernel's or holds a page,
and the page knows its frame. -/
structure AllHeld (s : Vm) : Prop where
  clockOk : ClockOk s.cm
  id_eq : ∀ f, s.cm.InRange f → (s.cm.coreDetails f).id = f
  held : ∀ f, s.cm.InRange f → (s.cm.coreDetails f).kern = 0 → ∃ p, s.Holds f p
  frame : ∀ f p, s.cm.InRange f → s.Holds f p → (s.pds p).pfn = f
  aligned : ∀ f p, s.cm.InRange f → s.Holds f p → (s.pds p).vaddr &&& pageFrame = (s.pds p).vaddr

structure Passes (s : Vm) (l : List Nat) (s' : Vm) : Prop where
  cm : s'.cm = { s.cm with clockPointer := s'.cm.clockPointer }
  used : ∀ f ∈ l, ∀ p, s.Holds f p → s'.pds p = { s.pds p with use := false }
  other : ∀ p, (∀ f ∈ l, ¬ s.Holds f p) → s'.pds p = s.pds p
  mem : s'.mem = s.mem
  swap : s'.swap = s.swap
  tlb : s.tlb.Shrinks s'.tlb

variable {s s' s'' : Vm} {f g n : Nat} {p q : PdPtr} {l l' : List Nat}

theorem Passes.holds (h : Passes s l s') : s'.Holds f p ↔ s.Holds f p := by
  unfold Vm.Holds
  rw [h.cm]

theorem Passes.inRange (h : Passes s l s') : s'.cm.InRange f ↔ s.cm.InRange f := by
  rw [h.cm]
  rfl

theorem Passes.sameDetail (h : Passes s l s') (p : PdPtr) : SameDetail (s.pds p) (s'.pds p) := by
  by_cases hp : ∃ f ∈ l, s.Holds f p
  · obtain ⟨f, hf, hp⟩ := hp
    rw [h.used f hf p hp]
    rfl
  · rw [h.other p fun f hf hfp => hp ⟨f, hf, hfp⟩]
    rfl

theorem Passes.refl (s : Vm) : Passes s [] s := ⟨rfl, by simp, fun _ _ => rfl, rfl, rfl, .refl _⟩

theorem Passes.trans (h : Passes s l s') (h' : Passes s' l' s'') : Passes s (l ++ l') s'' := by
  constructor
  case cm => rw [h'.cm, h.cm]
  case used =>
    intro f hf p hp
    by_cases hf' : ∃ g ∈ l', s'.Holds g p
    · obtain ⟨g, hg, hgp⟩ := hf'
      rw [h'.used g hg p hgp, h.sameDetail p]
    · rw [h'.other p fun g hg hgp => hf' ⟨g, hg, hgp⟩]
      refine h.used f ((List.mem_append.mp hf).resolve_right fun hf => hf' ⟨f, hf, h.holds.mpr hp⟩) p hp
  case other =>
    intro p hp
    rw [h'.other p fun f hf hfp => hp f (List.mem_append_right _ hf) (h.holds.mp hfp),
      h.other p fun f hf => hp f (List.mem_append_left _ hf)]
  case mem => rw [h'.mem, h.mem]
  case swap => rw [h'.swap, h.swap]
  case tlb => exact h.tlb.trans h'.tlb

theorem AllHeld.passes (h : AllHeld s) (hp : Passes s l s') (hc : s'.cm.clockPointer < s'.cm.size - s'.cm.lowestFrame) :
    AllHeld s' := by
  have hroom := h.clockOk.room
  constructor
  case clockOk => exact ⟨by rw [hp.cm]; exact hroom, hc⟩
  case id_eq =>
    intro f hf
    rw [hp.cm]
    exact h.id_eq f (hp.inRange.mp hf)
  case held =>
    intro f hf h0
    rw [hp.cm] at h0
    obtain ⟨p, hfp⟩ := h.held f (hp.inRange.mp hf) h0
    exact ⟨p, hp.holds.mpr hfp⟩
  case frame =>
    intro f p hf hfp
    rw [hp.sameDetail p]
    exact h.frame f p (hp.inRange.mp hf) (hp.holds.mp hfp)
  case aligned =>
    intro f p hf hfp
    rw [hp.sameDetail p]
    exact h.aligned f p (hp.inRange.mp hf) (hp.holds.mp hfp)

theorem AllHeld.inj (h : AllHeld s) (hf : s.cm.InRange f) (hg : s.cm.InRange g) (hfp : s.Holds f p)
    (hgp : s.Holds g p) : f = g := by
  have := (h.frame f p hf hfp).symm.trans (h.frame g p hg hgp)
  omega

/-! ## One frame -/

theorem Passes.skip (s : Vm) (h0 : (s.cm.coreDetails f).kern ≠ 0) :
    Passes s [f] { s with cm := advanceClock s.cm } := by
  refine ⟨rfl, fun g hg p hgp => ?_, fun _ _ => rfl, rfl, rfl, .refl _⟩
  obtain rfl := List.mem_singleton.mp hg
  exact absurd hgp.1 h0

theorem Passes.chance {tlb : Tlb} (hfp : s.Holds f p) (hal : (s.pds p).vaddr &&& pageFrame = (s.pds p).vaddr)
    (ht : tlbInvalidateVaddr s.tlb (s.pds p).vaddr = .ok tlb) : Passes s [f] (passed s p tlb) := by
  refine ⟨rfl, fun g hg q hgq => ?_, fun q hq => ?_, rfl, rfl, tlbInvalidateVaddr_shrinks hal ht⟩
  · obtain rfl := List.mem_singleton.mp hg
    obtain rfl := Option.some.inj (hfp.2.symm.trans hgq.2)
    simp only [passed, Vm.modifyPd_self]
  · have hne : q ≠ p := by
      rintro rfl
      exact hq f (List.mem_singleton_self f) hfp
    simp only [passed, Vm.modifyPd_pds, if_neg hne]

theorem isUnused_iff (hfp : s.Holds f p) : isUnused s f = !(s.pds p).use := by
  simp [isUnused, inUse, hfp.1, hfp.2]

theorem Passes.isUnused (hp : Passes s l s') (h : AllHeld s) (hl : ∀ f ∈ l, s.cm.InRange f)
    (hg : s.cm.InRange g) (hgl : g ∉ l) : isUnused s' g = isUnused s g := by
  by_cases h0 : (s.cm.coreDetails g).kern = 0
  · obtain ⟨p, hgp⟩ := h.held g hg h0
    rw [isUnused_iff hgp, isUnused_iff (hp.holds.mpr hgp), hp.other p fun f hf hfp => ?_]
    exact hgl (h.inj (hl f hf) hg hfp hgp ▸ hf)
  · have hk : ((s.cm.coreDetails g).kern == 0) = false := by simpa using h0
    have hk' : ((s'.cm.coreDetails g).kern == 0) = false := by rw [hp.cm]; exact hk
    unfold Os161.isUnused
    rw [hk, hk']
    rfl

theorem pushUnused_step (h : AllHeld s) (hf : clockToIndex s.cm s.cm.clockPointer = f) :
    (isUnused s f = false ∧ ∃ s₁, Passes s [f] s₁ ∧ s₁.cm = advanceClock s.cm ∧
      ∀ n, pushUnused (n + 1) s = pushUnused n s₁) ∨
    (isUnused s f = true ∧
      ∀ n, pushUnused (n + 1) s = cmFreeCore s f >>= fun s' => .ok (some (s'.cm.coreDetails f).id, s')) := by
  have hin : s.cm.InRange f := hf ▸ clock_inRange h.clockOk
  by_cases h0 : (s.cm.coreDetails f).kern = 0
  · obtain ⟨p, hfp⟩ := h.held f hin h0
    rw [isUnused_iff hfp]
    cases huse : (s.pds p).use with
    | true =>
      left
      have hal := h.aligned f p hin hfp
      obtain ⟨tlb, ht, -⟩ := tlbInvalidateVaddr_spec s.tlb hal
      exact ⟨rfl, passed s p tlb, .chance hfp hal ht, rfl, fun n => pushUnused_pass hf n h0 hfp.2 huse ht⟩
    | false =>
      right
      exact ⟨rfl, fun n => pushUnused_take hf n h0 hfp.2 huse⟩
  · left
    refine ⟨by simp [isUnused, h0], _, .skip s h0, rfl, fun n => pushUnused_skip hf n h0⟩

/-! ## The loops -/

theorem advanceClock_clockOk {c : Cm} (h : ClockOk c) : ClockOk (advanceClock c) :=
  ⟨h.room, Nat.mod_lt _ (Nat.sub_pos_of_lt h.room)⟩

theorem takeWhile_congr_mem {r r' : Nat → Bool} (h : ∀ g ∈ l, r g = r' g) : l.takeWhile r = l.takeWhile r' := by
  induction l with
  | nil => rfl
  | cons g l ih =>
    rw [List.takeWhile_cons, List.takeWhile_cons, h g List.mem_cons_self,
      ih fun g hg => h g (List.mem_cons_of_mem _ hg)]

theorem pushUnused_eq (h : AllHeld s) (hn : n ≤ s.cm.size - s.cm.lowestFrame) :
    (∀ f, (clockOrder s.cm n).find? (isUnused s) = some f →
      ∃ s₁, Passes s ((clockOrder s.cm n).takeWhile fun g => !isUnused s g) s₁ ∧ ClockOk s₁.cm ∧
        clockToIndex s₁.cm s₁.cm.clockPointer = f ∧
        pushUnused n s = cmFreeCore s₁ f >>= fun s' => .ok (some (s'.cm.coreDetails f).id, s')) ∧
    ((clockOrder s.cm n).find? (isUnused s) = none →
      ∃ s₁, Passes s (clockOrder s.cm n) s₁ ∧
        s₁.cm.clockPointer = (s.cm.clockPointer + n) % (s.cm.size - s.cm.lowestFrame) ∧
        pushUnused n s = .ok (none, s₁)) := by
  induction n generalizing s with
  | zero => exact ⟨fun f hf => (by cases hf), fun _ => ⟨s, .refl s, (Nat.mod_eq_of_lt h.clockOk.clock).symm, rfl⟩⟩
  | succ n ih =>
    rw [clockOrder_succ s.cm n h.clockOk.clock]
    have hout := clock_not_mem h.clockOk hn
    have hin := clock_inRange h.clockOk
    generalize hi : clockToIndex s.cm s.cm.clockPointer = i at hout hin ⊢
    rw [List.find?_cons, List.takeWhile_cons]
    rcases pushUnused_step h hi with ⟨hu, s₁, hp, hcm, heq⟩ | ⟨hu, heq⟩
    · rw [hu, heq n]
      have hc₁ : ClockOk s₁.cm := hcm ▸ advanceClock_clockOk h.clockOk
      have ih₁ := ih (h.passes hp hc₁.clock) (by rw [hcm]; exact Nat.le_of_succ_le hn)
      -- the frames that are left look the same from the new state
      have hsame : ∀ g ∈ clockOrder (advanceClock s.cm) n, isUnused s₁ g = isUnused s g := by
        intro g hg
        refine hp.isUnused h (fun f hf => List.mem_singleton.mp hf ▸ hin) ?_ fun hgi => ?_
        · exact mem_clockOrder (advanceClock_clockOk h.clockOk) hg
        · exact hout (List.mem_singleton.mp hgi ▸ hg)
      rw [hcm, List.find?_congr hsame, takeWhile_congr_mem fun g hg => congrArg (! ·) (hsame g hg)] at ih₁
      refine ⟨fun f hf => ?_, fun hf => ?_⟩
      · obtain ⟨s₂, hp₂, hc₂, hf₂, he₂⟩ := ih₁.1 f hf
        exact ⟨s₂, hp.trans hp₂, hc₂, hf₂, he₂⟩
      · obtain ⟨s₂, hp₂, hc₂, he₂⟩ := ih₁.2 hf
        refine ⟨s₂, hp.trans hp₂, hc₂.trans ?_, he₂⟩
        simp only [advanceClock, Nat.mod_add_mod]
        congr 1
        omega
    · rw [hu, heq n]
      refine ⟨fun f hf => ?_, by simp⟩
      obtain rfl := Option.some.inj hf
      exact ⟨s, .refl s, h.clockOk, hi, rfl⟩

theorem pushAny_eq (h : AllHeld s) (hf : (clockOrder s.cm n).find? (isPaged s) = some f) :
    ∃ s₁, Passes s [] s₁ ∧ ClockOk s₁.cm ∧ clockToIndex s₁.cm s₁.cm.clockPointer = f ∧
      pushAny n s = cmFreeCore s₁ f >>= fun s' => .ok (some (s'.cm.coreDetails f).id, s') := by
  induction n generalizing s with
  | zero => cases hf
  | succ n ih =>
    rw [clockOrder_succ s.cm n h.clockOk.clock, List.find?_cons] at hf
    have hin := clock_inRange h.clockOk
    generalize hi : clockToIndex s.cm s.cm.clockPointer = i at hf hin
    unfold pushAny
    simp only [hi]
    by_cases h0 : (s.cm.coreDetails i).kern = 0
    · obtain ⟨p, -, hpd⟩ := h.held i hin h0
      have hip : isPaged s i = true := by simp [isPaged, h0]
      rw [hip] at hf
      obtain rfl := Option.some.inj hf
      simp only [h0, if_true, hpd]
      exact ⟨s, .refl s, h.clockOk, hi, rfl⟩
    · have hip : isPaged s i = false := by simp [isPaged, h0]
      rw [hip] at hf
      simp only [h0, if_false]
      have hp : Passes s [] { s with cm := advanceClock s.cm } := ⟨rfl, by simp, fun _ _ => rfl, rfl, rfl, .refl _⟩
      have hc := advanceClock_clockOk h.clockOk
      obtain ⟨s₁, hp₁, hc₁, hf₁, he₁⟩ := ih (h.passes hp hc.clock) hf
      exact ⟨s₁, hp.trans hp₁, hc₁, hf₁, he₁⟩

def passedOver (s : Vm) : List Nat :=
  let order := clockOrder s.cm (s.cm.size - s.cm.lowestFrame)
  if order.any (isUnused s) then order.takeWhile fun f => !isUnused s f else order

theorem cmPushToSwap_eq (h : AllHeld s) (hf : clockVictim s = some f) :
    ∃ s₁, Passes s (passedOver s) s₁ ∧ ClockOk s₁.cm ∧ clockToIndex s₁.cm s₁.cm.clockPointer = f ∧
      cmPushToSwap s = cmFreeCore s₁ f >>= fun s' => .ok ((s'.cm.coreDetails f).id, s') := by
  obtain ⟨hsome, hnone⟩ := pushUnused_eq h (Nat.le_refl _)
  have hpass : passedOver s = if (clockOrder s.cm (s.cm.size - s.cm.lowestFrame)).any (isUnused s) then
    (clockOrder s.cm (s.cm.size - s.cm.lowestFrame)).takeWhile fun f => !isUnused s f
    else clockOrder s.cm (s.cm.size - s.cm.lowestFrame) := rfl
  unfold clockVictim at hf
  unfold cmPushToSwap
  rw [hpass]
  cases hfind : (clockOrder s.cm (s.cm.size - s.cm.lowestFrame)).find? (isUnused s) with
  | some g =>
    simp only [hfind, Option.some_or, Option.some.injEq] at hf
    subst hf
    obtain ⟨s₁, hp, hc, hf, he⟩ := hsome g hfind
    have hany : (clockOrder s.cm (s.cm.size - s.cm.lowestFrame)).any (isUnused s) = true :=
      List.any_eq_true.mpr ⟨g, List.mem_of_find?_eq_some hfind, List.find?_some hfind⟩
    rw [if_pos hany, he]
    refine ⟨s₁, hp, hc, hf, ?_⟩
    cases cmFreeCore s₁ g with
    | error c => rfl
    | ok s' => rfl
  | none =>
    simp only [hfind, Option.none_or] at hf
    obtain ⟨s₁, hp, hclock, he⟩ := hnone hfind
    have hany : ¬ (clockOrder s.cm (s.cm.size - s.cm.lowestFrame)).any (isUnused s) = true := by
      intro hany
      obtain ⟨g, hg, hu⟩ := List.any_eq_true.mp hany
      exact List.find?_eq_none.mp hfind g hg hu
    -- the first loop has gone round once
    have hback : s₁.cm.clockPointer = s.cm.clockPointer := by
      rw [hclock, Nat.add_mod_right, Nat.mod_eq_of_lt h.clockOk.clock]
    have hcm : s₁.cm = s.cm := by rw [hp.cm, hback]
    have hpaged : isPaged s₁ = isPaged s := by
      funext g
      unfold isPaged
      rw [hcm]
    obtain ⟨s₂, hp₂, hc₂, hf₂, he₂⟩ := pushAny_eq (n := s₁.cm.size - s₁.cm.lowestFrame)
      (h.passes hp (by rw [hcm]; exact h.clockOk.clock)) (by rw [hpaged, hcm]; exact hf)
    rw [if_neg hany, he, ok_bind]
    refine ⟨s₂, by simpa using hp.trans hp₂, hc₂, hf₂, ?_⟩
    dsimp only
    rw [he₂]
    cases cmFreeCore s₂ f with
    | error c => rfl
    | ok s' => rfl

theorem mem_passedOver (h : AllHeld s) (hf : f ∈ passedOver s) : s.cm.InRange f ∧ isUnused s f = false := by
  unfold passedOver at hf
  dsimp only at hf
  split at hf
  · exact ⟨mem_clockOrder h.clockOk (List.takeWhile_subset _ hf),
      by simpa using List.all_eq_true.mp List.all_takeWhile f hf⟩
  · rename_i hany
    refine ⟨mem_clockOrder h.clockOk hf, ?_⟩
    cases hu : isUnused s f with
    | true => exact absurd (List.any_eq_true.mpr ⟨f, hf, hu⟩) hany
    | false => rfl

theorem clockVictim_exists (h : AllHeld s) (hf : s.cm.InRange f) (h0 : (s.cm.coreDetails f).kern = 0) :
    ∃ g p, clockVictim s = some g ∧ s.cm.InRange g ∧ s.Holds g p := by
  have hmem := mem_clockOrder_round h.clockOk hf
  cases hv : clockVictim s with
  | none =>
    simp only [clockVictim, Option.or_eq_none_iff, List.find?_eq_none] at hv
    exact absurd (show isPaged s f = true by simp [isPaged, h0]) (hv.2 f hmem)
  | some g =>
    have hg : g ∈ clockOrder s.cm (s.cm.size - s.cm.lowestFrame) ∧ (s.cm.coreDetails g).kern = 0 := by
      unfold clockVictim at hv
      rcases Option.or_eq_some_iff.mp hv with hv | ⟨-, hv⟩
      · have := List.find?_some hv
        simp only [isUnused, Bool.and_eq_true, beq_iff_eq] at this
        exact ⟨List.mem_of_find?_eq_some hv, this.1⟩
      · exact ⟨List.mem_of_find?_eq_some hv, by simpa [isPaged] using List.find?_some hv⟩
    have hin := mem_clockOrder h.clockOk hg.1
    obtain ⟨p, hp⟩ := h.held g hin hg.2
    exact ⟨g, p, rfl, hin, hp⟩

/-! ## The rule -/

/-- `s'` is `s` after frame `f` was taken from page `p`: the pages of the
frames passed over were in use and are not any more, `p` is out of memory, and
all else is as it was. -/
structure SecondChance (s : Vm) (f : Nat) (p : PdPtr) (s' : Vm) : Prop where
  clock : s'.cm.clockPointer < s.cm.size - s.cm.lowestFrame
  cm : s'.cm = { s.cm with clockPointer := s'.cm.clockPointer, coreDetails := s'.cm.coreDetails }
  frame : s'.cm.coreDetails f = { s.cm.coreDetails f with pd := none, nextFree := none }
  frames : ∀ g, g ≠ f → s'.cm.coreDetails g = s.cm.coreDetails g
  lost : ∀ g ∈ passedOver s, ∀ q, s.Holds g q → (s.pds q).use = true ∧
    (q ≠ p → s'.pds q = { s.pds q with use := false })
  kept : ∀ q, q ≠ p → (∀ g ∈ passedOver s, ¬ s.Holds g q) → s'.pds q = s.pds q
  page : s'.pds p = { s.pds p with valid := false, use := false, sfn := (s'.pds p).sfn, pfn := -1 }
  clean : (s.pds p).dirty = false → (s'.pds p).sfn = -1 ∧ s'.swap = s.swap
  dirty : (s.pds p).dirty = true → ∃ node, s.swap.freePages = some node ∧
    (s'.pds p).sfn = s.swap.index node ∧ s'.swap = swappedOut s.swap node (s.mem f)
  mem : s'.mem = s.mem
  tlb : s.tlb.Shrinks s'.tlb

theorem Passes.secondChance {s₁ : Vm} {tlb : Tlb} {swap : Swap} {sfn : Int} (h : AllHeld s)
    (hp : Passes s (passedOver s) s₁) (hc : ClockOk s₁.cm) (ht : s₁.tlb.Shrinks tlb)
    (hclean : (s.pds p).dirty = false → sfn = -1 ∧ swap = s.swap)
    (hdirty : (s.pds p).dirty = true → ∃ node, s.swap.freePages = some node ∧ sfn = s.swap.index node ∧
      swap = swappedOut s.swap node (s.mem f)) :
    SecondChance s f p (evicted s₁ f p tlb swap sfn) := by
  have hother : ∀ q, q ≠ p → (evicted s₁ f p tlb swap sfn).pds q = s₁.pds q := fun q hq => by
    rw [evicted_pds, if_neg hq]
  have hpage : (evicted s₁ f p tlb swap sfn).pds p =
      { s.pds p with valid := false, use := false, sfn := sfn, pfn := -1 } := by
    rw [evicted_pds, if_pos rfl, hp.sameDetail p]
  constructor
  case clock =>
    have hclock := hc.clock
    rw [hp.cm] at hclock
    exact hclock
  case cm =>
    unfold evicted Cm.modify
    rw [hp.cm]
  case frame =>
    simp only [evicted, Cm.modify_self]
    rw [hp.cm]
  case frames =>
    intro g hg
    simp only [evicted, Cm.modify_of_ne hg]
    rw [hp.cm]
  case lost =>
    intro g hg q hgq
    refine ⟨?_, fun hq => by rw [hother q hq, hp.used g hg q hgq]⟩
    have hu := (mem_passedOver h hg).2
    rw [isUnused_iff hgq] at hu
    simpa using hu
  case kept =>
    intro q hq hno
    rw [hother q hq, hp.other q hno]
  case page => rw [hpage]
  case clean => rw [hpage]; exact hclean
  case dirty => rw [hpage]; exact hdirty
  case mem => exact hp.mem
  case tlb => exact hp.tlb.trans ht

/-- In every state without free frames, at every clock position and for all
use bits, `cm_push_to_swap` takes the clock's victim, unless the page there
has to be written to swap space that is full. -/
theorem second_chance (h : AllHeld s) (hu : ∃ f, s.cm.InRange f ∧ (s.cm.coreDetails f).kern = 0) :
    ∃ f p, clockVictim s = some f ∧ s.cm.InRange f ∧ s.Holds f p ∧
      if (s.pds p).dirty = true ∧ s.swap.freePages = none then
        ∃ c, cmPushToSwap s = .error c ∧ c.why = .outOfSwapSpace
      else ∃ s', cmPushToSwap s = .ok (f, s') ∧ SecondChance s f p s' := by
  obtain ⟨f₀, hf₀, h0⟩ := hu
  obtain ⟨f, p, hv, hin, hfp⟩ := clockVictim_exists h hf₀ h0
  refine ⟨f, p, hv, hin, hfp, ?_⟩
  obtain ⟨s₁, hp, hc, -, he⟩ := cmPushToSwap_eq h hv
  have hid : (s₁.cm.coreDetails f).id = f := by rw [hp.cm]; exact h.id_eq f hin
  have hdirty : (s₁.pds p).dirty = (s.pds p).dirty := by rw [hp.sameDetail p]
  have hal : (s₁.pds p).vaddr &&& pageFrame = (s₁.pds p).vaddr := by
    rw [hp.sameDetail p]
    exact h.aligned f p hin hfp
  obtain ⟨tlb, htlb, hcase⟩ := cmFreeCore_cases (hp.holds.mpr hfp).2 hal
  have hshrink := tlbInvalidateVaddr_shrinks hal htlb
  -- the frame keeps its number
  have hret : ∀ swap sfn, ((evicted s₁ f p tlb swap sfn).cm.coreDetails f).id = f := by
    intro swap sfn
    simp only [evicted, Cm.modify_self]
    exact hid
  rw [he]
  rw [hdirty, hp.swap, hp.mem, hid] at hcase
  rcases hcase with ⟨hd, hok⟩ | ⟨hd, node, hn, hok⟩ | ⟨hd, hn, hok⟩
  · rw [if_neg (by simp [hd]), hok, ok_bind, hret]
    exact ⟨_, rfl, hp.secondChance h hc hshrink (fun _ => ⟨rfl, rfl⟩) fun hd' => by simp [hd] at hd'⟩
  · rw [if_neg (by simp [hn]), hok, ok_bind, hret]
    exact ⟨_, rfl, hp.secondChance h hc hshrink (fun hd' => by simp [hd] at hd') fun _ => ⟨node, hn, rfl, rfl⟩⟩
  · rw [if_pos ⟨hd, hn⟩, hok]
    exact ⟨_, rfl, rfl⟩

def threeFrames (freePages : Option Nat) : Vm where
  cm := {
    init := true
    size := 4
    clockPointer := 0
    lowestFrame := 1
    coreDetails i := {
      id := i, kern := if i = 2 then 1 else 0, pd := if i = 2 then none else some ⟨0, i⟩
      nextFree := none, prevFree := none, free := false }
    freeFrameList := none
    lastFree := none }
  pds p := { vaddr := p.idx * pageSize, pfn := p.idx, sfn := -1, valid := true, dirty := p.idx == 3, use := p.idx == 1 }
  mem _ _ := 0
  swap := { index := id, next := fun _ => none, freePages := freePages, data := fun _ _ => 0 }
  tlb := tlbBootstrap (fun _ => 0) fun _ => none

theorem threeFrames_held (freePages : Option Nat) : AllHeld (threeFrames freePages) := by
  have hcases : ∀ f, (threeFrames freePages).cm.InRange f → f = 1 ∨ f = 2 ∨ f = 3 := by
    intro f hf
    have hf : 1 ≤ f ∧ f < 4 := hf
    omega
  constructor
  case clockOk => exact ⟨show 1 < 4 by decide, show 0 < 4 - 1 by decide⟩
  case id_eq => exact fun _ _ => rfl
  case held =>
    intro f hf h0
    rcases hcases f hf with rfl | rfl | rfl
    · exact ⟨_, rfl, rfl⟩
    · cases h0
    · exact ⟨_, rfl, rfl⟩
  case frame =>
    intro f p hf hfp
    rcases hcases f hf with rfl | rfl | rfl
    · rw [← Option.some.inj hfp.2]
      rfl
    · cases hfp.1
    · rw [← Option.some.inj hfp.2]
      rfl
  case aligned =>
    intro f p hf hfp
    rcases hcases f hf with rfl | rfl | rfl
    · rw [← Option.some.inj hfp.2]
      show 1 * pageSize &&& pageFrame = 1 * pageSize
      decide
    · cases hfp.1
    · rw [← Option.some.inj hfp.2]
      show 3 * pageSize &&& pageFrame = 3 * pageSize
      decide

theorem second_chance_three : ∃ s', cmPushToSwap (threeFrames (some 0)) = .ok (3, s') ∧
    SecondChance (threeFrames (some 0)) 3 ⟨0, 3⟩ s' ∧ (s'.pds ⟨0, 1⟩).use = false := by
  obtain ⟨f, p, hv, -, hp, h⟩ := second_chance (threeFrames_held (some 0)) ⟨1, ⟨by decide, by decide⟩, by decide⟩
  obtain rfl : 3 = f := Option.some.inj hv
  obtain rfl : ⟨0, 3⟩ = p := Option.some.inj hp.2
  obtain ⟨s', he, hs⟩ := h
  have hlost := (hs.lost 1 (by decide) ⟨0, 1⟩ ⟨rfl, rfl⟩).2 (by decide)
  exact ⟨s', he, hs, by rw [hlost]⟩

theorem second_chance_swap_full : AllHeld (threeFrames none) ∧ (threeFrames none).cm.InRange 1 ∧
    ((threeFrames none).cm.coreDetails 1).kern = 0 ∧
    ∃ c, cmPushToSwap (threeFrames none) = .error c ∧ c.why = .outOfSwapSpace :=
  ⟨threeFrames_held none, ⟨by decide, by decide⟩, rfl, _, rfl, rfl⟩

end Os161
