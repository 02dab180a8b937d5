import Os161.TogetherSound
import Mathlib.Data.Finset.Insert

/-!
# Cats and mice that get stuck

An animal goes to sleep in `cv_wait` some time after it has seen the other
species counted. The last of the others can be gone by then, and nobody is
left to broadcast. As long as nobody sleeps, somebody can go on.
-/

namespace Os161

open Outcome Tally

variable {ι : Type} [DecidableEq ι] {c : Calls} {s s' t : Kitchen ι} {i j : ι} {draw : Nat} {f fresh : Nat → Char}
  {kind : ι → Species}

def Kitchen.Stuck (c : Calls) (s : Kitchen ι) : Prop :=
  (∃ i, (s.animals i).pc ≠ .done) ∧
    ∀ i, (s.animals i).pc ≠ .done → ∀ draw f, animalStep c s i draw f = .error .blocked

/-! ## Somebody can go on -/

section
variable [Fintype ι] {N : Nat} (h : s.Ok N fresh)
include h
omit [DecidableEq ι]

theorem Kitchen.Ok.cnt_free (hw : ∀ i, (s.animals i).pc ≠ .done → s.Waits i) :
    s.holder SyncVar.counterLock.addr = none := by
  by_contra hne
  obtain ⟨i, hi⟩ := Option.ne_none_iff_exists'.mp hne
  have hholds := (h.cnt i).mp hi
  have hwi := hw i
  cases hp : (s.animals i).pc <;> simp_all [Animal.view, AnimalPc.view, Kitchen.Waits]

theorem Kitchen.Ok.mutex_free (hw : ∀ i, (s.animals i).pc ≠ .done → s.Waits i) : s.mutex = 1 := by
  have hzero : tally (fun x : Animal => x.view.inMutex.toNat) s.animals = 0 := by
    refine tally_eq_zero fun i => ?_
    have hwi := hw i
    cases hp : (s.animals i).pc <;> simp_all [Animal.view, AnimalPc.view, Kitchen.Waits]
  have hmutex := h.mutex
  omega

theorem Kitchen.Ok.sem_pos (hN : 1 ≤ N) (hw : ∀ i, (s.animals i).pc ≠ .done → s.Waits i) :
    s.sem SyncVar.bowlThatIsEmpty.addr ≠ 0 := by
  have hcnt := h.cnt_free hw
  have hmutex := h.mutex_free hw
  have hzero : tally (fun x : Animal => x.view.served.toNat) s.animals = 0 := by
    refine tally_eq_zero fun i => ?_
    have hwi := hw i
    cases hp : (s.animals i).pc <;> simp_all [Animal.view, AnimalPc.view, Kitchen.Waits]
  have hsem := h.sem
  omega

theorem Kitchen.Ok.go_on (hN : 1 ≤ N) (hawake : ∀ i cv l, (s.animals i).pc ≠ .asleep cv l)
    (hex : ∃ i, (s.animals i).pc ≠ .done) : ∃ i, (s.animals i).pc ≠ .done ∧ ¬ s.Waits i := by
  by_contra hall
  push Not at hall
  have hcnt := h.cnt_free hall
  have hmutex := h.mutex_free hall
  have hsem := h.sem_pos hN hall
  have hsel : s.holder SyncVar.bowlSelectLock.addr = none := by
    by_contra hne
    obtain ⟨i, hi⟩ := Option.ne_none_iff_exists'.mp hne
    have hholds := (h.sel i).mp hi
    have hwi := hall i
    cases hp : (s.animals i).pc <;> simp_all [Animal.view, AnimalPc.view, Kitchen.Waits]
  obtain ⟨i, hi⟩ := hex
  have hwi := hall i hi
  have hai := hawake i
  cases hp : (s.animals i).pc <;> simp_all [Kitchen.Waits]

end

theorem Kitchen.Ok.not_stuck [Fintype ι] {N : Nat} (h : s.Ok N fresh) (hN : 1 ≤ N) (hrun : c.numBowls s.run = N)
    (hawake : ∀ i cv l, (s.animals i).pc ≠ .asleep cv l) : ¬ s.Stuck c := by
  intro hstuck
  obtain ⟨i, hi, hgo⟩ := h.go_on hN hawake hstuck.1
  have hblocked := hstuck.2 i hi 0 fun _ => '-'
  obtain ⟨he, -⟩ | ⟨-, hw⟩ | ⟨he, -⟩ := (h.stops hrun 0 fun _ => '-').error_of hblocked
  · cases he
  · exact hgo hw
  · cases he

/-! ## Nobody sleeps where nobody is counted -/

theorem Animal.wake_awake {x : Animal} (h : x.pc.awake = true) (cv : Nat) : x.wake cv = x := by
  unfold Animal.wake
  split
  · rename_i hp
    rw [hp] at h
    cases h
  · rfl

theorem AnimalRun.awake (h : AnimalRun c (Kitchen.start c kind fresh) s)
    (hnum : ∀ t, AnimalRun c (Kitchen.start c kind fresh) t → ∀ i, (t.animals i).pc = .check →
      t.num (t.animals i).species.other ≤ 0) (i : ι) : (s.animals i).pc.awake = true := by
  refine (h.invariant (I := fun s => AnimalRun c (Kitchen.start c kind fresh) s ∧ ∀ i, (s.animals i).pc.awake = true)
    ⟨.refl, fun _ => rfl⟩ fun t i draw f t' hI ht => ?_).2 i
  obtain ⟨hrun, hawake⟩ := hI
  have hm := Moves.step ht
  refine ⟨hrun.trans (AnimalRun.step draw f ht), fun j => ?_⟩
  by_cases hj : j = i
  · subst hj
    by_contra hs
    rcases hm.sleeps (by simpa using hs) with hp | ⟨hp, hpos⟩
    · have hj := hawake j
      rw [hp] at hj
      cases hj
    · have hle := hnum t hrun j hp
      omega
  · rcases hm.others j hj with he | ⟨cv, he⟩ <;> rw [he]
    · exact hawake j
    · rw [Animal.wake_awake (hawake j)]
      exact hawake j

omit [DecidableEq ι] in
theorem Kitchen.Ok.num_zero [Fintype ι] {N : Nat} (h : s.Ok N fresh) {k : Species}
    (hk : ∀ i b, (s.animals i).species = k → (s.animals i).view.bowl ≠ some b) : s.num k = 0 := by
  rw [h.num]
  suffices hz : tally (fun x : Animal => (decide (x.view.species = k) && x.view.counts).toNat) s.animals = 0 by
    rw [hz]; rfl
  refine tally_eq_zero fun i => ?_
  rw [Animal.view_species]
  by_cases hi : (s.animals i).species = k
  · have hki := fun b => hk i b hi
    have hcounts : (s.animals i).view.counts = false := by
      unfold Animal.view at hki ⊢
      cases hp : (s.animals i).pc <;> simp_all [AnimalPc.view]
    rw [hcounts]
    simp
  · simp [hi]

/-! ## The lost wake-up -/

theorem AnimalRun.gone_before_sleep {v : Kitchen ι} {b : Nat} (hij : i ≠ j) (hrun : ∀ k, (v.animals k).run = v.run)
    (hptr : ∀ a, v.ptr a = some a.addr) (hi : (v.animals i).pc = .eat b)
    (hlast : (v.animals i).loop + 1 = c.numLoops v.run) (hj : (v.animals j).pc = .wait)
    (hdone : ∀ k, k ≠ i → k ≠ j → (v.animals k).pc = .done) (hb : b < c.numBowls v.run) (hmutex : v.mutex = 1)
    (hmark : v.eatMarks[b]? = some '-') (hcount : ∀ k, v.eatCount k = 0)
    (hcnt : v.holder SyncVar.counterLock.addr = none) (hsel : v.holder SyncVar.bowlSelectLock.addr = some j) :
    ∃ s', AnimalRun c v s' ∧ s'.Stuck c := by
  have hawake : ∀ k cv l, (v.animals k).pc ≠ .asleep cv l := by
    intro k cv l
    by_cases hki : k = i
    · rw [hki, hi]
      simp
    · by_cases hkj : k = j
      · rw [hkj, hj]
        simp
      · rw [hdone k hki hkj]
        simp
  have h₁ := AnimalRun.toTop (c := c) (hrun i) hptr hi hb hmutex hmark hcount hcnt hawake
  let w := (v.leave i b).setPc i .done
  have h₂ : AnimalRun c v w := by
    have hleft : (v.leave i b).animals i = { v.animals i with loop := (v.animals i).loop + 1, pc := .top } := by
      simp only [Kitchen.leave, Kitchen.nextLoop, Function.update_self]
    refine h₁.trans (AnimalRun.toDone ?_ ?_ ?_) <;> rw [hleft]
    · exact hrun i
    · exact Nat.le_of_eq hlast.symm
  have hw : ∀ k, k ≠ i → w.animals k = v.animals k := by
    intro k hk
    simp only [w, Kitchen.setPc, Kitchen.leave, Kitchen.nextLoop, Function.update_of_ne hk]
  have h₃ : AnimalRun c w (w.fallAsleep j) := by
    refine AnimalRun.toSleep ?_ ?_ hptr hsel <;> rw [hw j hij.symm]
    · exact hj
    · exact hrun j
  have hj' : ((w.fallAsleep j).animals j).pc =
      .asleep (w.animals j).species.exclusive.addr SyncVar.bowlSelectLock.addr := by
    simp only [Kitchen.fallAsleep, setPc_animals]
  have hothers : ∀ k, k ≠ j → ((w.fallAsleep j).animals k).pc = .done := by
    intro k hk
    rw [show (w.fallAsleep j).animals k = w.animals k from setPc_of_ne _ _ hk]
    by_cases hki : k = i
    · rw [hki]
      simp only [w, setPc_animals]
    · rw [hw k hki, hdone k hki hk]
  refine ⟨w.fallAsleep j, h₂.trans h₃, ⟨j, by rw [hj']; simp⟩, fun k hk draw f => ?_⟩
  obtain rfl : k = j := by
    by_contra hne
    exact hk (hothers k hne)
  have hrunk : ((w.fallAsleep k).animals k).run = (w.fallAsleep k).run := by
    have hkin := AnimalRun.kin (h₂.trans h₃)
    rw [hkin.animalRun, hkin.run, hrun]
  unfold animalStep
  rw [if_neg (not_not.mpr hrunk), hj']
  rfl

/-! ## Animals that eat one after the other -/

structure Kitchen.Quiet [Fintype ι] (c : Calls) (fresh : Nat → Char) (s : Kitchen ι) : Prop where
  ok : s.Ok (c.numBowls 0) fresh
  run : s.run = 0
  animalRun : ∀ i, (s.animals i).run = 0
  rest : ∀ i, (s.animals i).pc = .top ∨ (s.animals i).pc = .done

section
variable [Fintype ι] {b : Nat} (h : s.Quiet c fresh)
include h
omit [DecidableEq ι]

theorem Kitchen.Quiet.idle : s.Idle := by
  intro i
  unfold Animal.view
  rcases h.rest i with hp | hp <;> rw [hp] <;> rfl

theorem Kitchen.Quiet.sel : s.holder SyncVar.bowlSelectLock.addr = none := h.idle.sel h.ok

theorem Kitchen.Quiet.cnt : s.holder SyncVar.counterLock.addr = none := h.idle.cnt h.ok

theorem Kitchen.Quiet.mark (hb : b < c.numBowls 0) (hfresh : fresh b ≠ 'o') :
    ∃ x, (s.marks SyncVar.bowls.addr)[b]? = some x ∧ x ≠ 'o' := by
  have hlt : b < (s.marks SyncVar.bowls.addr).length := by rwa [h.ok.length]
  refine ⟨_, List.getElem?_eq_getElem hlt, fun ho => hfresh ?_⟩
  rw [← h.idle.marked h.ok hb, List.getElem?_eq_getElem hlt, ho]

end

def OnlyMoves (i : ι) (s s' : Kitchen ι) : Prop := ∀ j, j ≠ i → s'.animals j = s.animals j

section
variable [Fintype ι] {b : Nat} (h : s.Quiet c fresh) (hb : b < c.numBowls 0) (hfresh : fresh b ≠ 'o')
include h

theorem Kitchen.Quiet.of_run (hr : AnimalRun c s s')
    (hrest : ∀ i, (s'.animals i).pc = .top ∨ (s'.animals i).pc = .done) : s'.Quiet c fresh where
  ok := hr.ok h.ok
  run := hr.kin.run.trans h.run
  animalRun i := (hr.kin.animalRun i).trans (h.animalRun i)
  rest := hrest

include hb hfresh

theorem Kitchen.Quiet.toEat (hp : (s.animals i).pc = .top) (hloop : (s.animals i).loop < c.numLoops 0) :
    AnimalRun c s ((s.takeBowl i b).sitDown i b) := by
  obtain ⟨x, hx, hxo⟩ := h.mark hb hfresh
  have hrun : (s.animals i).run = s.run := by rw [h.animalRun, h.run]
  have h₁ : AnimalRun c s (s.takeBowl i b) := by
    refine AnimalRun.toBowl hp hrun h.ok.ptr ?_ h.sel (Int.le_of_eq (h.idle.num h.ok _)) ?_ ?_ hx hxo
    · rwa [h.run]
    · rw [h.idle.sem h.ok]
      exact Nat.ne_of_gt (Nat.zero_lt_of_lt hb)
    · rwa [h.run]
  refine h₁.trans (AnimalRun.toEat ?_ (h₁.kin.animalRun i |>.trans hrun) h.ok.ptr h.cnt)
  simp only [Kitchen.takeBowl, setPc_animals]

theorem Kitchen.Quiet.loop (hp : (s.animals i).pc = .top) (hloop : (s.animals i).loop < c.numLoops 0) :
    ∃ s', AnimalRun c s s' ∧ s'.Quiet c fresh ∧ OnlyMoves i s s' ∧
      s'.animals i = { s.animals i with loop := (s.animals i).loop + 1 } := by
  let u := (s.takeBowl i b).sitDown i b
  have h₁ : AnimalRun c s u := h.toEat hb hfresh hp hloop
  have hi : u.animals i = { s.animals i with pc := .eat b } := by
    simp only [u, Kitchen.sitDown, Kitchen.takeBowl, setPc_animals]
  have ho : ∀ j, j ≠ i → u.animals j = s.animals j := by
    intro j hj
    simp only [u, Kitchen.sitDown, Kitchen.takeBowl, Kitchen.setPc, Function.update_of_ne hj]
  have hawake : ∀ j cv l, (u.animals j).pc ≠ .asleep cv l := by
    intro j cv l
    by_cases hj : j = i
    · rw [hj, hi]
      simp
    · rw [ho j hj]
      rcases h.rest j with hp | hp <;> rw [hp] <;> simp
  have h₂ : AnimalRun c u (u.leave i b) := by
    refine AnimalRun.toTop ?_ h.ok.ptr (by rw [hi]) ?_ (h.idle.mutex h.ok) (h.idle.eatMark h.ok hb)
      (h.idle.eatCount h.ok) h.cnt hawake
    · rw [hi]
      exact (h.animalRun i).trans h.run.symm
    · exact hb.trans_eq (congrArg c.numBowls h.run).symm
  have hleft : (u.leave i b).animals i = { s.animals i with loop := (s.animals i).loop + 1 } := by
    simp only [Kitchen.leave, Kitchen.nextLoop, Function.update_self, hi, hp]
  have hother : OnlyMoves i s (u.leave i b) := by
    intro j hj
    rw [← ho j hj]
    simp only [Kitchen.leave, Kitchen.nextLoop, Function.update_of_ne hj]
  refine ⟨u.leave i b, h₁.trans h₂, h.of_run (h₁.trans h₂) fun j => ?_, hother, hleft⟩
  by_cases hj : j = i
  · rw [hj, hleft]
    exact Or.inl hp
  · rw [hother j hj]
    exact h.rest j

theorem Kitchen.Quiet.loops (hp : (s.animals i).pc = .top) {n : Nat} (hle : (s.animals i).loop ≤ n)
    (hn : n ≤ c.numLoops 0) :
    ∃ s', AnimalRun c s s' ∧ s'.Quiet c fresh ∧ OnlyMoves i s s' ∧ s'.animals i = { s.animals i with loop := n } := by
  induction n with
  | zero =>
    have hzero : (s.animals i).loop = 0 := Nat.le_zero.mp hle
    exact ⟨s, .refl, h, fun _ _ => rfl, by rw [← hzero]⟩
  | succ n ih =>
    by_cases heq : (s.animals i).loop = n + 1
    · exact ⟨s, .refl, h, fun _ _ => rfl, by rw [← heq]⟩
    · obtain ⟨s₁, hr₁, hq₁, ho₁, hi₁⟩ := ih (by omega) (by omega)
      obtain ⟨s₂, hr₂, hq₂, ho₂, hi₂⟩ := hq₁.loop hb hfresh (i := i) (by rw [hi₁]; exact hp)
        (by rw [hi₁]; exact hn)
      refine ⟨s₂, hr₁.trans hr₂, hq₂, fun j hj => (ho₂ j hj).trans (ho₁ j hj), ?_⟩
      rw [hi₂, hi₁]

theorem Kitchen.Quiet.finish (hloop : (s.animals i).loop ≤ c.numLoops 0) :
    ∃ s', AnimalRun c s s' ∧ s'.Quiet c fresh ∧ OnlyMoves i s s' ∧ (s'.animals i).pc = .done := by
  rcases h.rest i with hp | hp
  · obtain ⟨s₁, hr₁, hq₁, ho₁, hi₁⟩ := h.loops hb hfresh hp hloop (Nat.le_refl _)
    have hdone : AnimalRun c s₁ (s₁.setPc i .done) := by
      refine AnimalRun.toDone (by rw [hi₁]; exact hp) (by rw [hq₁.animalRun, hq₁.run]) ?_
      rw [hi₁, hq₁.run]
    have hr₂ := hr₁.trans hdone
    refine ⟨s₁.setPc i .done, hr₂, h.of_run hr₂ fun j => ?_, fun j hj => ?_, by rw [setPc_animals]⟩
    · by_cases hj : j = i
      · rw [hj, setPc_animals]
        exact Or.inr rfl
      · rw [setPc_of_ne _ _ hj]
        exact hq₁.rest j
    · rw [setPc_of_ne _ _ hj, ho₁ j hj]
  · exact ⟨s, .refl, h, fun _ _ => rfl, hp⟩

theorem Kitchen.Quiet.finish_all (hloop : ∀ i, (s.animals i).loop ≤ c.numLoops 0) {l : List ι} (hl : l.Nodup) :
    ∃ s', AnimalRun c s s' ∧ s'.Quiet c fresh ∧ (∀ j, j ∉ l → s'.animals j = s.animals j) ∧
      ∀ j ∈ l, (s'.animals j).pc = .done := by
  induction l with
  | nil => exact ⟨s, .refl, h, fun _ _ => rfl, by simp⟩
  | cons i l ih =>
    obtain ⟨hi, hl⟩ := List.nodup_cons.mp hl
    obtain ⟨s₁, hr₁, hq₁, ho₁, hd₁⟩ := ih hl
    obtain ⟨s₂, hr₂, hq₂, ho₂, hd₂⟩ := hq₁.finish hb hfresh (i := i) (by rw [ho₁ i hi]; exact hloop i)
    refine ⟨s₂, hr₁.trans hr₂, hq₂, fun j hj => ?_, fun j hj => ?_⟩
    · rw [List.mem_cons, not_or] at hj
      rw [ho₂ j hj.1, ho₁ j hj.2]
    · by_cases hji : j = i
      · rw [hji, hd₂]
      · rw [ho₂ j hji]
        exact hd₁ j ((List.mem_cons.mp hj).resolve_left hji)

theorem Kitchen.Quiet.lost_wakeup (hij : i ≠ j) (hi : (s.animals i).pc = .top)
    (hlast : (s.animals i).loop + 1 = c.numLoops 0) (hj : (s.animals j).pc = .top)
    (hloop : (s.animals j).loop < c.numLoops 0) (hother : (s.animals j).species.other = (s.animals i).species)
    (hdone : ∀ k, k ≠ i → k ≠ j → (s.animals k).pc = .done) : ∃ s', AnimalRun c s s' ∧ s'.Stuck c := by
  -- `i` begins to eat
  let u := (s.takeBowl i b).sitDown i b
  have h₁ : AnimalRun c s u := h.toEat hb hfresh hi (by omega)
  have hui : u.animals i = { s.animals i with pc := .eat b } := by
    simp only [u, Kitchen.sitDown, Kitchen.takeBowl, setPc_animals]
  have huo : ∀ k, k ≠ i → u.animals k = s.animals k := by
    intro k hk
    simp only [u, Kitchen.sitDown, Kitchen.takeBowl, Kitchen.setPc, Function.update_of_ne hk]
  -- `j` finds `i` counted
  let v := u.seeOther j
  have h₂ : AnimalRun c u v := by
    refine AnimalRun.toWait ?_ (h₁.kin.animalRun j |>.trans ?_) h.ok.ptr ?_ h.sel ?_
    · rw [huo j hij.symm, hj]
    · rw [h.animalRun]
      exact h.run.symm
    · rw [huo j hij.symm]
      exact hloop.trans_eq (congrArg c.numLoops h.run).symm
    · rw [huo j hij.symm, hother]
      simp [u, Kitchen.sitDown, Kitchen.takeBowl, Kitchen.setPc, h.idle.num h.ok]
  have hvi : v.animals i = u.animals i := setPc_of_ne _ _ hij
  have hvo : ∀ k, k ≠ i → k ≠ j → v.animals k = s.animals k := by
    intro k hki hkj
    rw [← huo k hki]
    exact setPc_of_ne _ _ hkj
  have hvj : v.animals j = { s.animals j with pc := .wait } := by
    rw [← huo j hij.symm]
    exact setPc_animals _ _ _
  have hkin : Kin s v := AnimalRun.kin (h₁.trans h₂)
  have hrun : v.run = 0 := hkin.run.trans h.run
  obtain ⟨s', h₃, hstuck⟩ : ∃ s', AnimalRun c v s' ∧ s'.Stuck c := by
    refine AnimalRun.gone_before_sleep hij ?_ h.ok.ptr ?_ ?_ ?_ ?_ ?_ (h.idle.mutex h.ok) (h.idle.eatMark h.ok hb)
      (h.idle.eatCount h.ok) ?_ ?_
    · intro k
      rw [hkin.animalRun, h.animalRun, hrun]
    · rw [hvi, hui]
    · rw [hvi, hui, hrun]
      exact hlast
    · rw [hvj]
    · intro k hki hkj
      rw [hvo k hki hkj, hdone k hki hkj]
    · rwa [hrun]
    · exact h.cnt
    · simp only [v, Kitchen.seeOther, Kitchen.setPc, Function.update_self]
  exact ⟨s', (h₁.trans h₂).trans h₃, hstuck⟩

end

omit [DecidableEq ι] in
theorem Kitchen.Quiet.start [Fintype ι] : (Kitchen.start c kind fresh).Quiet c fresh where
  ok := .start kind
  run := rfl
  animalRun _ := rfl
  rest _ := Or.inl rfl

theorem AnimalRun.stuck [Fintype ι] {b : Nat} (hi : kind i = .cat) (hj : kind j = .mouse) (hloops : c.numLoops 0 ≠ 0)
    (hb : b < c.numBowls 0) (hfresh : fresh b ≠ 'o') : ∃ s, AnimalRun c (Kitchen.start c kind fresh) s ∧ s.Stuck c := by
  have hij : i ≠ j := by
    rintro rfl
    rw [hi] at hj
    cases hj
  let rest := (Finset.univ.erase i).erase j
  have hquiet : (Kitchen.start c kind fresh).Quiet c fresh := .start
  obtain ⟨s₁, hr₁, hq₁, ho₁, hd₁⟩ := hquiet.finish_all hb hfresh (fun _ => Nat.zero_le _) rest.nodup_toList
  have hi₁ : s₁.animals i = { species := kind i, run := 0, loop := 0, pc := .top } := ho₁ i (by simp [rest])
  have hj₁ : s₁.animals j = { species := kind j, run := 0, loop := 0, pc := .top } := ho₁ j (by simp [rest])
  obtain ⟨s₂, hr₂, hq₂, ho₂, hi₂⟩ := hq₁.loops hb hfresh (i := i) (n := c.numLoops 0 - 1) (by rw [hi₁])
    (by rw [hi₁]; exact Nat.zero_le _) (Nat.sub_le _ _)
  obtain ⟨s₃, hr₃, hstuck⟩ := hq₂.lost_wakeup hb hfresh hij (by rw [hi₂, hi₁]) (by rw [hi₂]; exact Nat.succ_pred hloops)
    (by rw [ho₂ j hij.symm, hj₁]) (by rw [ho₂ j hij.symm, hj₁]; exact Nat.pos_of_ne_zero hloops)
    (by rw [ho₂ j hij.symm, hi₂, hi₁, hj₁, hi, hj]; rfl)
    (fun k hki hkj => by rw [ho₂ k hki]; exact hd₁ k (by simp [rest, hki, hkj]))
  exact ⟨s₃, (hr₁.trans hr₂).trans hr₃, hstuck⟩

/-- The cats and mice get stuck in no run of a call exactly when one species is
missing, there is nothing to do, or no bowl can ever be chosen. -/
theorem kitchen_stuck_iff [Fintype ι] (c : Calls) (kind : ι → Species) (fresh : Nat → Char) (hN : 1 ≤ c.numBowls 0) :
    (∀ s, AnimalRun c (Kitchen.start c kind fresh) s → ¬ s.Stuck c) ↔
    (∀ i, kind i ≠ .cat) ∨ (∀ i, kind i ≠ .mouse) ∨ c.numLoops 0 = 0 ∨ ∀ b < c.numBowls 0, fresh b = 'o' := by
  constructor
  · intro h
    by_contra hne
    simp only [not_or, not_forall, not_not] at hne
    obtain ⟨⟨i, hi⟩, ⟨j, hj⟩, hloops, b, hb, hfresh⟩ := hne
    obtain ⟨s, hs, hstuck⟩ := AnimalRun.stuck hi hj hloops hb hfresh
    exact h s hs hstuck
  · intro hcond s hs
    have hnum : ∀ t, AnimalRun c (Kitchen.start c kind fresh) t → ∀ i, (t.animals i).pc = .check →
        t.num (t.animals i).species.other ≤ 0 := by
      intro t ht i hp
      have hok : t.Ok (c.numBowls 0) fresh := ht.ok (.start kind)
      refine Int.le_of_eq ?_
      rcases hcond with hcat | hmouse | hloops | hmarked
      · refine hok.num_zero fun j b hj => absurd ?_ (hcat j)
        have hi := hcat i
        rw [ht.start_species, ht.start_species] at hj
        cases hk : kind i <;> simp_all [Species.other]
      · refine hok.num_zero fun j b hj => absurd ?_ (hmouse j)
        have hi := hmouse i
        rw [ht.start_species, ht.start_species] at hj
        cases hk : kind i <;> simp_all [Species.other]
      · rcases ht.idle hloops i with h' | h' <;> rw [hp] at h' <;> cases h'
      · refine hok.num_zero fun j b _ hbowl => ?_
        obtain ⟨hlt, hfresh⟩ := hok.usable j b hbowl
        exact hfresh (hmarked b hlt)
    have hrun : c.numBowls s.run = c.numBowls 0 := by rw [hs.kin.run]; rfl
    refine (hs.ok (.start kind)).not_stuck hN hrun fun i cv l hp => ?_
    have hawake := hs.awake hnum i
    rw [hp] at hawake
    cases hawake

theorem kitchen_stuck_iff_cats :
    ¬ ∃ s, AnimalRun ⟨fun _ => 2, fun _ => 3⟩
      (Kitchen.start ⟨fun _ => 2, fun _ => 3⟩ (fun _ : Fin 2 => .cat) fun _ => '-') s ∧
      s.Stuck ⟨fun _ => 2, fun _ => 3⟩ := by
  intro ⟨s, hs, hstuck⟩
  exact (kitchen_stuck_iff _ _ _ (by decide)).mpr (Or.inr (Or.inl (fun _ => by decide))) s hs hstuck

theorem mouse_sleeps_on :
    ∃ s, AnimalRun ⟨fun _ => 1, fun _ => 1⟩ (Kitchen.start ⟨fun _ => 1, fun _ => 1⟩ catAndMouse fun _ => '-') s ∧
      s.Stuck ⟨fun _ => 1, fun _ => 1⟩ :=
  AnimalRun.stuck (i := 0) (j := 1) (b := 0) rfl rfl (by decide) (by decide) (by decide)

end Os161
