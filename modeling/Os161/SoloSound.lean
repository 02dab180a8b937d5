import Os161.Catmouse
import Os161.Lib.Outcome

/-!
# One animal at a time

What an animal does while all others stand still: from the top of its loop to
a bowl, from there to eating, and from eating back to the top.
-/

namespace Os161

open Outcome

def KitchenAct.IsAnimal {ι : Type} : KitchenAct ι → Prop
  | .animal _ _ _ => True
  | .nextCall => False

section
variable {ι : Type} [DecidableEq ι] {c : Calls} {s t : Kitchen ι} {i : ι} {b m : Nat} {p q : AnimalPc}

def AnimalRun (c : Calls) : Kitchen ι → Kitchen ι → Prop := Reach (kitchenStep c) (fun _ a => a.IsAnimal)

theorem AnimalRun.step {s s' : Kitchen ι} (draw : Nat) (f : Nat → Char) (h : animalStep c s i draw f = .ok s') :
    AnimalRun c s s' :=
  Reach.refl.tail (a := .animal i draw f) trivial h

theorem setPc_setPc (s : Kitchen ι) (i : ι) (p q : AnimalPc) : (s.setPc i p).setPc i q = s.setPc i q := by
  simp [Kitchen.setPc]

theorem setPc_self (h : (s.animals i).pc = p) : s.setPc i p = s := by
  have hx : { s.animals i with pc := p } = s.animals i := by rw [← h]
  simp only [Kitchen.setPc, hx, Function.update_eq_self]

theorem setPc_run (s : Kitchen ι) (i : ι) (p : AnimalPc) : (s.setPc i p).run = s.run := rfl

theorem setPc_sem (s : Kitchen ι) (i : ι) (p : AnimalPc) : (s.setPc i p).sem = s.sem := rfl

theorem setPc_of_ne {j : ι} (s : Kitchen ι) (p : AnimalPc) (h : j ≠ i) : (s.setPc i p).animals j = s.animals j := by
  simp only [Kitchen.setPc, Function.update_of_ne h]

theorem setPc_animals (s : Kitchen ι) (i : ι) (p : AnimalPc) :
    (s.setPc i p).animals i = { s.animals i with pc := p } := by
  simp [Kitchen.setPc]

theorem AnimalRun.at (hrun : (t.animals i).run = t.run) (draw : Nat) (f : Nat → Char)
    (h : animalExec c (t.setPc i p) i draw f p = .ok s) : AnimalRun c (t.setPc i p) s := by
  refine AnimalRun.step (i := i) draw f ?_
  unfold animalStep
  rw [if_neg (by rw [setPc_animals]; simpa [Kitchen.setPc] using hrun), setPc_animals]
  exact h

theorem deref_setPc (hptr : ∀ v, t.ptr v = some v.addr) (i : ι) (p : AnimalPc) (v : SyncVar) :
    (t.setPc i p).deref v = .ok v.addr := by
  simp [Kitchen.deref, Kitchen.setPc, hptr]

/-! ## Single steps -/

section
variable (hrun : (t.animals i).run = t.run) (hptr : ∀ v, t.ptr v = some v.addr)
include hrun hptr

omit hptr in
theorem AnimalRun.acquires {a : Nat} (hfree : t.holder a = none)
    (he : animalExec c (t.setPc i p) i 0 (fun _ => '-') p = (t.setPc i p).acquire i a >>= fun s => .ok (s.setPc i q)) :
    AnimalRun c (t.setPc i p) ({ t with holder := Function.update t.holder a (some i) }.setPc i q) := by
  refine AnimalRun.at hrun 0 (fun _ => '-') ?_
  have hacq : (t.setPc i p).acquire i a =
      .ok ({ t with holder := Function.update t.holder a (some i) }.setPc i p) := if_pos hfree
  rw [he, hacq, ok_bind, setPc_setPc]

omit hptr in
theorem AnimalRun.releases {a : Nat} (hheld : t.holder a = some i)
    (he : animalExec c (t.setPc i p) i 0 (fun _ => '-') p = (t.setPc i p).release i a >>= fun s => .ok (s.setPc i q)) :
    AnimalRun c (t.setPc i p) ({ t with holder := Function.update t.holder a none }.setPc i q) := by
  refine AnimalRun.at hrun 0 (fun _ => '-') ?_
  have hrel : (t.setPc i p).release i a =
      .ok ({ t with holder := Function.update t.holder a none }.setPc i p) := if_pos hheld
  rw [he, hrel, ok_bind, setPc_setPc]

theorem AnimalRun.top (hloop : (t.animals i).loop < c.numLoops t.run)
    (hsel : t.holder SyncVar.bowlSelectLock.addr = none) : AnimalRun c (t.setPc i .top)
      ({ t with holder := Function.update t.holder SyncVar.bowlSelectLock.addr (some i) }.setPc i .check) := by
  refine AnimalRun.acquires hrun hsel ?_
  simp only [animalExec, setPc_animals, setPc_run]
  rw [if_pos hloop, deref_setPc hptr, ok_bind]

omit hptr in
theorem AnimalRun.check :
    AnimalRun c (t.setPc i .check) (t.setPc i (if t.num (t.animals i).species.other > 0 then .wait else .take)) := by
  refine AnimalRun.at hrun 0 (fun _ => '-') ?_
  simp only [animalExec, setPc_animals, setPc_setPc]
  rfl

theorem AnimalRun.wait (hsel : t.holder SyncVar.bowlSelectLock.addr = some i) :
    AnimalRun c (t.setPc i .wait) ({ t with holder := Function.update t.holder SyncVar.bowlSelectLock.addr none }.setPc
      i (.asleep (t.animals i).species.exclusive.addr SyncVar.bowlSelectLock.addr)) := by
  refine AnimalRun.releases hrun hsel ?_
  simp only [animalExec, setPc_animals]
  rw [deref_setPc hptr, ok_bind, deref_setPc hptr, ok_bind]

theorem AnimalRun.take (hsem : t.sem SyncVar.bowlThatIsEmpty.addr ≠ 0) :
    AnimalRun c (t.setPc i .take) ({ t with
      sem := Function.update t.sem SyncVar.bowlThatIsEmpty.addr
        (t.sem SyncVar.bowlThatIsEmpty.addr - 1) }.setPc i .pick) := by
  refine AnimalRun.at hrun 0 (fun _ => '-') ?_
  simp only [animalExec]
  rw [deref_setPc hptr, ok_bind, setPc_sem, if_neg hsem]
  simp [Kitchen.setPc]

theorem AnimalRun.pick (hb : b < c.numBowls t.run) {x : Char} (hm : (t.marks SyncVar.bowls.addr)[b]? = some x)
    (hx : x ≠ 'o') :
    AnimalRun c (t.setPc i .pick) ({ t with
      marks := Function.update t.marks SyncVar.bowls.addr ((t.marks SyncVar.bowls.addr).set b 'o') }.setPc i
        (.picked b)) := by
  refine AnimalRun.at hrun b (fun _ => '-') ?_
  have hmod : b % c.numBowls (t.setPc i .pick).run = b := Nat.mod_eq_of_lt hb
  have hm' : ((t.setPc i .pick).marks SyncVar.bowls.addr)[b]? = some x := hm
  simp only [animalExec]
  rw [deref_setPc hptr, ok_bind, hmod]
  simp only [Kitchen.select, hm', if_pos hx]
  simp [Kitchen.setPc]

theorem AnimalRun.picked (hsel : t.holder SyncVar.bowlSelectLock.addr = some i) :
    AnimalRun c (t.setPc i (.picked b))
      ({ t with holder := Function.update t.holder SyncVar.bowlSelectLock.addr none }.setPc i (.count b)) := by
  refine AnimalRun.releases hrun hsel ?_
  simp only [animalExec]
  rw [deref_setPc hptr, ok_bind]

theorem AnimalRun.count (hcnt : t.holder SyncVar.counterLock.addr = none) :
    AnimalRun c (t.setPc i (.count b))
      ({ t with holder := Function.update t.holder SyncVar.counterLock.addr (some i) }.setPc i (.counting b)) := by
  refine AnimalRun.acquires hrun hcnt ?_
  simp only [animalExec]
  rw [deref_setPc hptr, ok_bind]

omit hptr in
theorem AnimalRun.counting :
    AnimalRun c (t.setPc i (.counting b)) ({ t with
      num := Function.update t.num (t.animals i).species (t.num (t.animals i).species + 1) }.setPc i (.counted b)) := by
  refine AnimalRun.at hrun 0 (fun _ => '-') ?_
  simp only [animalExec, setPc_animals]
  simp [Kitchen.setPc]

theorem AnimalRun.counted (hcnt : t.holder SyncVar.counterLock.addr = some i) :
    AnimalRun c (t.setPc i (.counted b))
      ({ t with holder := Function.update t.holder SyncVar.counterLock.addr none }.setPc i (.eat b)) := by
  refine AnimalRun.releases hrun hcnt ?_
  simp only [animalExec]
  rw [deref_setPc hptr, ok_bind]

end

/-! ## To a bowl, and to eating -/

theorem update_update_self {β : Type} {h : Nat → β} {a : Nat} {x y : β} (ha : h a = y) :
    Function.update (Function.update h a x) a y = h := by
  rw [Function.update_idem, ← ha, Function.update_eq_self]

def Kitchen.takeBowl (t : Kitchen ι) (i : ι) (b : Nat) : Kitchen ι :=
  { t with
    sem := Function.update t.sem SyncVar.bowlThatIsEmpty.addr (t.sem SyncVar.bowlThatIsEmpty.addr - 1)
    marks := Function.update t.marks SyncVar.bowls.addr ((t.marks SyncVar.bowls.addr).set b 'o') }.setPc i (.count b)

theorem AnimalRun.toBowl (hp : (t.animals i).pc = .top) (hrun : (t.animals i).run = t.run)
    (hptr : ∀ v, t.ptr v = some v.addr)
    (hloop : (t.animals i).loop < c.numLoops t.run) (hsel : t.holder SyncVar.bowlSelectLock.addr = none)
    (hnum : t.num (t.animals i).species.other ≤ 0) (hsem : t.sem SyncVar.bowlThatIsEmpty.addr ≠ 0)
    (hb : b < c.numBowls t.run) {x : Char} (hm : (t.marks SyncVar.bowls.addr)[b]? = some x) (hx : x ≠ 'o') :
    AnimalRun c t (t.takeBowl i b) := by
  have h₁ := AnimalRun.top hrun hptr hloop hsel
  rw [setPc_self hp] at h₁
  have h₂ := h₁.trans (AnimalRun.check (c := c)
    (t := { t with holder := Function.update t.holder SyncVar.bowlSelectLock.addr (some i) }) hrun)
  rw [if_neg (show ¬ t.num (t.animals i).species.other > 0 by omega)] at h₂
  have h₃ := h₂.trans (AnimalRun.take hrun hptr hsem)
  have h₄ := h₃.trans (AnimalRun.pick hrun hptr hb hm hx)
  have h₅ := h₄.trans (AnimalRun.picked hrun hptr (by simp only [Function.update_self]))
  simp only [update_update_self hsel] at h₅
  exact h₅

def Kitchen.sitDown (t : Kitchen ι) (i : ι) (b : Nat) : Kitchen ι :=
  { t with num := Function.update t.num (t.animals i).species (t.num (t.animals i).species + 1) }.setPc i (.eat b)

theorem AnimalRun.toEat (hp : (t.animals i).pc = .count b) (hrun : (t.animals i).run = t.run)
    (hptr : ∀ v, t.ptr v = some v.addr)
    (hcnt : t.holder SyncVar.counterLock.addr = none) : AnimalRun c t (t.sitDown i b) := by
  have h₁ := AnimalRun.count (c := c) (b := b) hrun hptr hcnt
  rw [setPc_self hp] at h₁
  have h₂ := h₁.trans (AnimalRun.counting hrun)
  have h₃ := h₂.trans (AnimalRun.counted hrun hptr (by simp only [Function.update_self]))
  simp only [update_update_self hcnt] at h₃
  exact h₃

/-! ## To sleep, and to the end -/

def Kitchen.seeOther (t : Kitchen ι) (i : ι) : Kitchen ι :=
  { t with holder := Function.update t.holder SyncVar.bowlSelectLock.addr (some i) }.setPc i .wait

theorem AnimalRun.toWait (hp : (t.animals i).pc = .top) (hrun : (t.animals i).run = t.run)
    (hptr : ∀ v, t.ptr v = some v.addr) (hloop : (t.animals i).loop < c.numLoops t.run)
    (hsel : t.holder SyncVar.bowlSelectLock.addr = none) (hnum : 0 < t.num (t.animals i).species.other) :
    AnimalRun c t (t.seeOther i) := by
  have h₁ := AnimalRun.top hrun hptr hloop hsel
  rw [setPc_self hp] at h₁
  have h₂ := h₁.trans (AnimalRun.check (c := c)
    (t := { t with holder := Function.update t.holder SyncVar.bowlSelectLock.addr (some i) }) hrun)
  rwa [if_pos hnum] at h₂

def Kitchen.fallAsleep (t : Kitchen ι) (i : ι) : Kitchen ι :=
  { t with holder := Function.update t.holder SyncVar.bowlSelectLock.addr none }.setPc i
    (.asleep (t.animals i).species.exclusive.addr SyncVar.bowlSelectLock.addr)

theorem AnimalRun.toSleep (hp : (t.animals i).pc = .wait) (hrun : (t.animals i).run = t.run)
    (hptr : ∀ v, t.ptr v = some v.addr) (hsel : t.holder SyncVar.bowlSelectLock.addr = some i) :
    AnimalRun c t (t.fallAsleep i) := by
  have h₁ := AnimalRun.wait (c := c) hrun hptr hsel
  rwa [setPc_self hp] at h₁

theorem AnimalRun.toDone (hp : (t.animals i).pc = .top) (hrun : (t.animals i).run = t.run)
    (hloop : c.numLoops t.run ≤ (t.animals i).loop) : AnimalRun c t (t.setPc i .done) := by
  refine AnimalRun.step (i := i) 0 (fun _ => '-') ?_
  unfold animalStep
  rw [if_neg (not_not.mpr hrun), hp]
  simp only [animalExec]
  rw [if_neg (Nat.not_lt.mpr hloop)]

/-! ## Eating, and back to the top -/

section
variable (hrun : (t.animals i).run = t.run) (hptr : ∀ v, t.ptr v = some v.addr)
include hrun

theorem AnimalRun.eat (hb : b < c.numBowls t.run) (hmutex : t.mutex ≠ 0) :
    AnimalRun c (t.setPc i (.eat b)) ({ t with mutex := t.mutex - 1 }.setPc i (.eatBegin b)) := by
  refine AnimalRun.at hrun 0 (fun _ => '-') ?_
  have hp : (t.setPc i (.eat b)).eatP = .ok ({ t with mutex := t.mutex - 1 }.setPc i (.eat b)) := if_neg hmutex
  have hb' : ¬ c.numBowls (t.setPc i (.eat b)).run < b + 1 := by
    rw [setPc_run]
    omega
  simp only [animalExec]
  rw [if_neg hb', hp, ok_bind, setPc_setPc]

theorem AnimalRun.eatBegin (hm : t.eatMarks[b]? = some '-') (hcount : t.eatCount (t.animals i).species.other = 0) :
    AnimalRun c (t.setPc i (.eatBegin b)) ({ t with
      eatCount := Function.update t.eatCount (t.animals i).species (t.eatCount (t.animals i).species + 1)
      eatMarks := t.eatMarks.set b (t.animals i).species.letter
      mutex := t.mutex + 1 }.setPc i (.eating b)) := by
  refine AnimalRun.at hrun 0 (fun _ => '-') ?_
  have hbegin : (t.setPc i (.eatBegin b)).eatBegin (t.animals i).species b = .ok ({ t with
      eatCount := Function.update t.eatCount (t.animals i).species (t.eatCount (t.animals i).species + 1)
      eatMarks := t.eatMarks.set b (t.animals i).species.letter
      mutex := t.mutex + 1 }.setPc i (.eatBegin b)) := by
    have hne : ¬ some '-' = some (t.animals i).species.letter := by cases (t.animals i).species <;> decide
    unfold Kitchen.eatBegin
    simp only [Kitchen.setPc, hm, hcount, if_neg hne, gt_iff_lt, Int.lt_irrefl, if_false, and_self, if_true]
  simp only [animalExec, setPc_animals]
  rw [hbegin, ok_bind, setPc_setPc]

theorem AnimalRun.eating (hmutex : t.mutex ≠ 0) :
    AnimalRun c (t.setPc i (.eating b)) ({ t with mutex := t.mutex - 1 }.setPc i (.eatEnd b)) := by
  refine AnimalRun.at hrun 0 (fun _ => '-') ?_
  have hp : (t.setPc i (.eating b)).eatP = .ok ({ t with mutex := t.mutex - 1 }.setPc i (.eating b)) := if_neg hmutex
  simp only [animalExec]
  rw [hp, ok_bind, setPc_setPc]

theorem AnimalRun.eatEnd (hm : t.eatMarks[b]? = some (t.animals i).species.letter)
    (hcount : 0 < t.eatCount (t.animals i).species) :
    AnimalRun c (t.setPc i (.eatEnd b)) ({ t with
      eatCount := Function.update t.eatCount (t.animals i).species (t.eatCount (t.animals i).species - 1)
      eatMarks := t.eatMarks.set b '-'
      mutex := t.mutex + 1 }.setPc i (.uncount b)) := by
  refine AnimalRun.at hrun 0 (fun _ => '-') ?_
  have hend : (t.setPc i (.eatEnd b)).eatEnd (t.animals i).species b = .ok ({ t with
      eatCount := Function.update t.eatCount (t.animals i).species (t.eatCount (t.animals i).species - 1)
      eatMarks := t.eatMarks.set b '-'
      mutex := t.mutex + 1 }.setPc i (.eatEnd b)) := if_pos ⟨hcount, hm⟩
  simp only [animalExec, setPc_animals]
  rw [hend, ok_bind, setPc_setPc]

theorem AnimalRun.meal (hb : b < c.numBowls t.run) (hmutex : t.mutex = 1) (hm : t.eatMarks[b]? = some '-')
    (hcount : ∀ k, t.eatCount k = 0) : AnimalRun c (t.setPc i (.eat b)) (t.setPc i (.uncount b)) := by
  obtain ⟨hlt, hget⟩ := List.getElem?_eq_some_iff.mp hm
  have hmarks : (t.eatMarks.set b (t.animals i).species.letter).set b '-' = t.eatMarks := by
    rw [List.set_set, ← hget, List.set_getElem_self]
  have h₁ := AnimalRun.eat (c := c) hrun hb (by omega)
  have h₂ := h₁.trans (AnimalRun.eatBegin hrun hm (hcount _))
  have h₃ := h₂.trans (AnimalRun.eating hrun (by simp))
  have h₄ := h₃.trans (AnimalRun.eatEnd hrun (List.getElem?_set_self hlt) (by simp [hcount]))
  simp only [hmarks, Function.update_self, Int.add_sub_cancel, Function.update_idem, Function.update_eq_self,
    show t.mutex - 1 + 1 = t.mutex by omega] at h₄
  exact h₄

include hptr

theorem AnimalRun.uncount (hcnt : t.holder SyncVar.counterLock.addr = none) :
    AnimalRun c (t.setPc i (.uncount b))
      ({ t with holder := Function.update t.holder SyncVar.counterLock.addr (some i) }.setPc i (.uncounting b)) := by
  refine AnimalRun.acquires hrun hcnt ?_
  simp only [animalExec]
  rw [deref_setPc hptr, ok_bind]

theorem AnimalRun.uncounting :
    AnimalRun c (t.setPc i (.uncounting b)) ({ t with
      num := Function.update t.num (t.animals i).species (t.num (t.animals i).species - 1)
      marks := Function.update t.marks SyncVar.bowls.addr ((t.marks SyncVar.bowls.addr).set b '-') }.setPc i
        (if t.num (t.animals i).species - 1 = 0 then .broadcast else .uncounted)) := by
  refine AnimalRun.at hrun 0 (fun _ => '-') ?_
  simp only [animalExec, setPc_animals]
  rw [deref_setPc hptr, ok_bind]
  exact congrArg Except.ok (setPc_setPc { t with
    num := Function.update t.num (t.animals i).species (t.num (t.animals i).species - 1)
    marks := Function.update t.marks SyncVar.bowls.addr ((t.marks SyncVar.bowls.addr).set b '-') } i (.uncounting b) _)

theorem AnimalRun.broadcast (hawake : ∀ j cv l, (t.animals j).pc ≠ .asleep cv l) :
    AnimalRun c (t.setPc i .broadcast) (t.setPc i .uncounted) := by
  refine AnimalRun.at hrun 0 (fun _ => '-') ?_
  have hwake : ∀ cv, (t.setPc i .broadcast).cvBroadcast cv = t.setPc i .broadcast := by
    intro cv
    have hall : ∀ j, ((t.setPc i .broadcast).animals j).wake cv = (t.setPc i .broadcast).animals j := by
      intro j
      have hj : ∀ cv l, ((t.setPc i .broadcast).animals j).pc ≠ .asleep cv l := by
        intro cv l
        by_cases hji : j = i
        · rw [hji, setPc_animals]
          nofun
        · simpa only [Kitchen.setPc, Function.update_of_ne hji] using hawake j cv l
      unfold Animal.wake
      split
      · rename_i c l hc
        exact absurd hc (hj c l)
      · rfl
    simp only [Kitchen.cvBroadcast, hall]
  simp only [animalExec]
  rw [deref_setPc hptr, ok_bind, hwake, setPc_setPc]

theorem AnimalRun.uncounted (hcnt : t.holder SyncVar.counterLock.addr = some i) :
    AnimalRun c (t.setPc i .uncounted)
      ({ t with holder := Function.update t.holder SyncVar.counterLock.addr none }.setPc i .give) := by
  refine AnimalRun.releases hrun hcnt ?_
  simp only [animalExec]
  rw [deref_setPc hptr, ok_bind]

def Kitchen.nextLoop (t : Kitchen ι) (i : ι) : Kitchen ι :=
  { t with animals := Function.update t.animals i { t.animals i with loop := (t.animals i).loop + 1, pc := .top } }

theorem AnimalRun.give :
    AnimalRun c (t.setPc i .give) ({ t with
      sem := Function.update t.sem SyncVar.bowlThatIsEmpty.addr
        (t.sem SyncVar.bowlThatIsEmpty.addr + 1) }.nextLoop i) := by
  refine AnimalRun.at hrun 0 (fun _ => '-') ?_
  simp only [animalExec]
  rw [deref_setPc hptr, ok_bind]
  simp [Kitchen.nextLoop, Kitchen.setPc]

def Kitchen.leave (t : Kitchen ι) (i : ι) (b : Nat) : Kitchen ι :=
  { t with
    num := Function.update t.num (t.animals i).species (t.num (t.animals i).species - 1)
    marks := Function.update t.marks SyncVar.bowls.addr ((t.marks SyncVar.bowls.addr).set b '-')
    sem := Function.update t.sem SyncVar.bowlThatIsEmpty.addr (t.sem SyncVar.bowlThatIsEmpty.addr + 1) }.nextLoop i

theorem AnimalRun.toTop (hp : (t.animals i).pc = .eat b) (hb : b < c.numBowls t.run) (hmutex : t.mutex = 1)
    (hm : t.eatMarks[b]? = some '-') (hcount : ∀ k, t.eatCount k = 0) (hcnt : t.holder SyncVar.counterLock.addr = none)
    (hawake : ∀ j cv l, (t.animals j).pc ≠ .asleep cv l) : AnimalRun c t (t.leave i b) := by
  have h₁ := AnimalRun.meal (c := c) hrun hb hmutex hm hcount
  have h₂ := h₁.trans (AnimalRun.uncount hrun hptr hcnt)
  have h₃ := h₂.trans (AnimalRun.uncounting hrun hptr)
  -- with or without the broadcast
  have h₄ : AnimalRun c (t.setPc i (.eat b)) ({ t with
      holder := Function.update t.holder SyncVar.counterLock.addr (some i)
      num := Function.update t.num (t.animals i).species (t.num (t.animals i).species - 1)
      marks := Function.update t.marks SyncVar.bowls.addr
        ((t.marks SyncVar.bowls.addr).set b '-') }.setPc i .uncounted) := by
    split at h₃
    · exact h₃.trans (AnimalRun.broadcast hrun hptr hawake)
    · exact h₃
  have h₅ := h₄.trans (AnimalRun.uncounted hrun hptr (by simp only [Function.update_self]))
  simp only [update_update_self hcnt] at h₅
  rw [setPc_self hp] at h₅
  exact h₅.trans (AnimalRun.give hrun hptr)

end

end

end Os161
