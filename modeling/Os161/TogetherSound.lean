import Os161.CatmouseSound
import Os161.SoloSound

/-!
# Cats and mice that eat together

The test of `nummouse` is made under `BowlSelectLock` and the counter raised
later under `CounterLock`, so a cat and a mouse that both have a bowl can both
eat. With one bowl to be had they cannot.
-/

namespace Os161

open Outcome Tally

variable {ι : Type} [DecidableEq ι] {c : Calls} {s s' t : Kitchen ι} {i j : ι} {draw : Nat} {f fresh : Nat → Char}
  {kind : ι → Species}

def AnimalPc.inEat : AnimalPc → Bool
  | .eat _ | .eatBegin _ | .eating _ | .eatEnd _ => true
  | _ => false

def Kitchen.Apart (s : Kitchen ι) : Prop :=
  ∀ i j, (s.animals i).species = .cat → (s.animals j).species = .mouse →
    ¬ ((s.animals i).pc.inEat = true ∧ (s.animals j).pc.inEat = true)

def KitchenFault.AboutEating (e : KitchenFault) : Prop := e = .eatTogether ∨ e = .assertion

/-! ## Runs of one call -/

theorem AnimalRun.invariant {I : Kitchen ι → Prop} (h : AnimalRun c s s') (h₀ : I s)
    (hs : ∀ s i draw f s', I s → animalStep c s i draw f = .ok s' → I s') : I s' := by
  refine Reach.invariant (I := I) h₀ (fun s a s' hI ha hst => ?_) h
  cases a with
  | animal i draw f => exact hs s i draw f s' hI hst
  | nextCall => exact ha.elim

theorem AnimalRun.kin (h : AnimalRun c s s') : Kin s s' := by
  refine h.invariant (I := Kin s) ⟨rfl, fun _ => rfl, fun _ => rfl⟩ fun t i draw f t' hk ht => ?_
  have hstep := Kin.step ht
  exact ⟨hstep.run.trans hk.run, fun j => (hstep.species j).trans (hk.species j),
    fun j => (hstep.animalRun j).trans (hk.animalRun j)⟩

theorem AnimalRun.ok [Fintype ι] {N : Nat} (h : AnimalRun c s s') (hok : s.Ok N fresh) : s'.Ok N fresh :=
  h.invariant (I := fun s => s.Ok N fresh) hok fun _ _ _ _ _ hI hs => hI.step hs

theorem AnimalRun.start_species (h : AnimalRun c (Kitchen.start c kind fresh) s) (i : ι) :
    (s.animals i).species = kind i :=
  h.kin.species i

/-! ## When nothing goes wrong -/

theorem inEat_bowl {x : Animal} (h : x.pc.inEat = true) : ∃ b, x.view.bowl = some b := by
  unfold Animal.view
  cases hp : x.pc <;> simp_all [AnimalPc.inEat, AnimalPc.view]

theorem eats_inEat {x : Animal} {b : Nat} (h : x.view.eats = some b) : x.pc.inEat = true := by
  unfold Animal.view at h
  cases hp : x.pc <;> simp_all [AnimalPc.inEat, AnimalPc.view]

omit [DecidableEq ι] in
theorem Kitchen.Ok.apart_of_one_bowl [Fintype ι] {N : Nat} (h : s.Ok N fresh)
    (hone : ∀ b < N, ∀ b' < N, fresh b ≠ 'o' → fresh b' ≠ 'o' → b = b') : s.Apart := by
  intro i j hi hj ⟨hin, hjn⟩
  obtain ⟨b, hb⟩ := inEat_bowl hin
  obtain ⟨b', hb'⟩ := inEat_bowl hjn
  obtain ⟨hlt, hfresh⟩ := h.usable i b hb
  obtain ⟨hlt', hfresh'⟩ := h.usable j b' hb'
  obtain rfl := hone b hlt b' hlt' hfresh hfresh'
  obtain rfl := h.single i j b hb hb'
  rw [hi] at hj
  cases hj

omit [DecidableEq ι] in
theorem Kitchen.Apart.not_other (h : s.Apart) (hij : (s.animals j).species = (s.animals i).species.other)
    (hi : (s.animals i).pc.inEat = true) : (s.animals j).pc.inEat ≠ true := by
  intro hj
  cases hk : (s.animals i).species with
  | cat => exact h i j hk (by rw [hij, hk]; rfl) ⟨hi, hj⟩
  | mouse => exact h j i (by rw [hij, hk]; rfl) hk ⟨hj, hi⟩

omit [DecidableEq ι] in
theorem Kitchen.Ok.eatCount_other [Fintype ι] {N : Nat} (h : s.Ok N fresh) (ha : s.Apart)
    (hi : (s.animals i).pc.inEat = true) : s.eatCount (s.animals i).species.other = 0 := by
  rw [h.eatCount]
  suffices hz : tally (fun x : Animal => (decide (x.view.species = (s.animals i).species.other) &&
      x.view.eats.isSome).toNat) s.animals = 0 by rw [hz]; rfl
  refine tally_eq_zero fun j => ?_
  by_cases hj : (s.animals j).view.species = (s.animals i).species.other
  · have hne := ha.not_other (by rw [← hj, Animal.view_species]) hi
    cases he : (s.animals j).view.eats with
    | none => simp
    | some b => exact absurd (eats_inEat he) hne
  · simp [hj]

theorem Kitchen.Ok.no_panic [Fintype ι] {N : Nat} (h : s.Ok N fresh) (hrun : c.numBowls s.run = N) (ha : s.Apart)
    {e : KitchenFault} (he : animalStep c s i draw f = .error e) : ¬ e.AboutEating := by
  obtain ⟨rfl, -⟩ | ⟨rfl, -⟩ | ⟨rfl, hpos, b, hp⟩ := (h.stops hrun draw f).error_of he
  · rintro (hc | hc) <;> cases hc
  · rintro (hc | hc) <;> cases hc
  · have hzero := h.eatCount_other ha (i := i) (by rw [hp]; rfl)
    omega

theorem AnimalRun.idle (h : AnimalRun c (Kitchen.start c kind fresh) s) (hloops : c.numLoops 0 = 0) (i : ι) :
    (s.animals i).pc = .top ∨ (s.animals i).pc = .done := by
  refine (h.invariant (I := fun s => s.run = 0 ∧ ∀ i, (s.animals i).pc = .top ∨ (s.animals i).pc = .done)
    ⟨rfl, fun _ => Or.inl rfl⟩ fun t j draw f t' hI ht => ?_).2 i
  obtain ⟨hrun, hpc⟩ := hI
  refine ⟨(Kin.step ht).run.trans hrun, ?_⟩
  unfold animalStep at ht
  split at ht
  · cases ht
  · rcases hpc j with hp | hp
    · rw [hp] at ht
      simp only [animalExec, hrun, hloops, Nat.not_lt_zero, if_false] at ht
      obtain rfl := Except.ok.inj ht
      intro k
      by_cases hk : k = j
      · subst hk
        rw [setPc_animals]
        exact Or.inr rfl
      · simpa only [Kitchen.setPc, Function.update_of_ne hk] using hpc k
    · rw [hp] at ht
      cases ht

/-! ## When they meet -/

theorem AnimalRun.meet (kind : ι → Species) (hij : i ≠ j) (hloops : 0 < c.numLoops 0) {b b' : Nat}
    (hb : b < c.numBowls 0)
    (hb' : b' < c.numBowls 0) (hne : b ≠ b') (hfresh : fresh b ≠ 'o') (hfresh' : fresh b' ≠ 'o') :
    ∃ s, AnimalRun c (Kitchen.start c kind fresh) s ∧ (s.animals i).pc = .eat b ∧ (s.animals j).pc = .eat b' := by
  let s₀ := Kitchen.start c kind fresh
  let s₁ := s₀.takeBowl i b
  let s₂ := s₁.takeBowl j b'
  let s₃ := s₂.sitDown i b
  have hmarks : s₁.marks SyncVar.bowls.addr = ((List.range (c.numBowls 0)).map fresh).set b 'o' := by
    simp [s₁, s₀, Kitchen.takeBowl, Kitchen.setPc, Kitchen.start]
  have h₁ : AnimalRun c s₀ s₁ := by
    refine AnimalRun.toBowl rfl rfl (fun _ => rfl) hloops rfl (Int.le_refl 0) ?_ hb (x := fresh b) ?_ hfresh
    · exact Nat.ne_of_gt (Nat.zero_lt_of_lt hb)
    · simp [s₀, Kitchen.start, hb]
  have h₂ : AnimalRun c s₁ s₂ := by
    have hj : s₁.animals j = s₀.animals j := setPc_of_ne _ _ hij.symm
    refine AnimalRun.toBowl ?_ ?_ (fun _ => rfl) ?_ rfl (Int.le_refl 0) ?_ hb' (x := fresh b') ?_ hfresh'
    · rw [hj]; rfl
    · rw [hj]; rfl
    · rw [hj]; exact hloops
    · simp only [s₁, s₀, Kitchen.takeBowl, setPc_sem, Function.update_self, Kitchen.start]
      omega
    · rw [hmarks, List.getElem?_set_ne hne]
      simp [hb']
  have h₃ : AnimalRun c s₂ s₃ := by
    have hi : s₂.animals i = s₁.animals i := setPc_of_ne _ _ hij
    refine AnimalRun.toEat ?_ ((AnimalRun.kin (h₁.trans h₂)).animalRun i) (fun _ => rfl) rfl
    rw [hi]
    simp only [s₁, Kitchen.takeBowl, setPc_animals]
  have hj : (s₃.animals j).pc = .count b' := by
    rw [show s₃.animals j = s₂.animals j from setPc_of_ne _ _ hij.symm]
    simp only [s₂, Kitchen.takeBowl, setPc_animals]
  have h₁₃ : AnimalRun c s₀ s₃ := (h₁.trans h₂).trans h₃
  have h₄ := AnimalRun.toEat (c := c) hj (h₁₃.kin.animalRun j) (fun _ => rfl) rfl
  refine ⟨s₃.sitDown j b', h₁₃.trans h₄, ?_, ?_⟩
  · rw [show (s₃.sitDown j b').animals i = s₃.animals i from setPc_of_ne _ _ hij]
    simp only [s₃, Kitchen.sitDown, setPc_animals]
  · simp only [Kitchen.sitDown, setPc_animals]

/-- Cats and mice stay apart, and `bowls.c` finds them so, in every run of a
call exactly when at most one bowl is not marked 'o' from the start, or one
species is missing, or there is nothing to do. -/
theorem cats_and_mice_apart [Fintype ι] (c : Calls) (kind : ι → Species) (fresh : Nat → Char) :
    (∀ s, AnimalRun c (Kitchen.start c kind fresh) s →
      s.Apart ∧ ∀ i draw f e, animalStep c s i draw f = .error e → ¬ e.AboutEating) ↔
    (∀ b < c.numBowls 0, ∀ b' < c.numBowls 0, fresh b ≠ 'o' → fresh b' ≠ 'o' → b = b') ∨
      (∀ i, kind i ≠ .cat) ∨ (∀ i, kind i ≠ .mouse) ∨ c.numLoops 0 = 0 := by
  constructor
  · intro h
    by_contra hne
    simp only [not_or, not_forall, not_not] at hne
    obtain ⟨⟨b, hb, b', hb', hfresh, hfresh', hbb⟩, ⟨i, hi⟩, ⟨j, hj⟩, hloops⟩ := hne
    have hij : i ≠ j := by
      rintro rfl
      rw [hi] at hj
      cases hj
    obtain ⟨s, hs, hpi, hpj⟩ := AnimalRun.meet kind hij (Nat.pos_of_ne_zero hloops) hb hb' hbb hfresh hfresh'
    refine (h s hs).1 i j ?_ ?_ ⟨by rw [hpi]; rfl, by rw [hpj]; rfl⟩
    · rw [hs.start_species, hi]
    · rw [hs.start_species, hj]
  · intro hcond s hs
    have hok : s.Ok (c.numBowls 0) fresh := hs.ok (.start kind)
    have hrun : c.numBowls s.run = c.numBowls 0 := by rw [hs.kin.run]; rfl
    have hapart : s.Apart := by
      rcases hcond with hone | hcat | hmouse | hloops
      · exact hok.apart_of_one_bowl hone
      · exact fun i j hi _ => absurd (hs.start_species i ▸ hi) (hcat i)
      · exact fun i j _ hj => absurd (hs.start_species j ▸ hj) (hmouse j)
      · intro i j _ _ hin
        replace hin := hin.1
        rcases hs.idle hloops i with hp | hp <;> rw [hp] at hin <;> cases hin
    exact ⟨hapart, fun i draw f e he => hok.no_panic hrun hapart he⟩

def catAndMouse (i : Fin 2) : Species := if i = 0 then .cat else .mouse

theorem cat_and_mouse_together :
    ∃ s, AnimalRun ⟨fun _ => 2, fun _ => 1⟩ (Kitchen.start ⟨fun _ => 2, fun _ => 1⟩ catAndMouse fun _ => '-') s ∧
      (s.animals 0).species = .cat ∧ (s.animals 0).pc = .eating 0 ∧
      (s.animals 1).species = .mouse ∧ (s.animals 1).pc = .eatBegin 1 ∧
      animalStep ⟨fun _ => 2, fun _ => 1⟩ s 1 0 (fun _ => '-') = .error .eatTogether := by
  let cat : KitchenAct (Fin 2) := .animal 0 0 fun _ => '-'
  let mouse : KitchenAct (Fin 2) := .animal 1 1 fun _ => '-'
  -- each to its bowl, then the cat begins to eat and the mouse is about to
  refine ⟨_, Reach.of_foldlM (l := List.replicate 5 cat ++ List.replicate 5 mouse ++ List.replicate 5 cat ++
    List.replicate 4 mouse) ?_ rfl, rfl, rfl, rfl, rfl, rfl⟩
  intro s a ha
  simp only [List.mem_append, List.mem_replicate] at ha
  rcases ha with ((⟨-, rfl⟩ | ⟨-, rfl⟩) | ⟨-, rfl⟩) | ⟨-, rfl⟩ <;> trivial

end Os161
