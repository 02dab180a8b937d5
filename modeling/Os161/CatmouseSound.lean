import Os161.Catmouse
import Os161.Lib.Outcome
import Os161.Lib.Tally

/-!
# Bowls, counters and semaphores agree with the animals

Once the variables are initialised, every one of them is determined by where
the animals are: `BowlThatIsEmpty` by the animals between `P` and `V`, the
marks by the animals with a bowl, `numcat` and `nummouse` by the animals
counted.
-/

namespace Os161

open Outcome Tally

variable {ι : Type} [DecidableEq ι] {s s' t : Kitchen ι} {i j : ι} {c : Calls} {draw : Nat} {f : Nat → Char}

/-! ## What a step does to the animals -/

omit [DecidableEq ι] in
theorem acquire_eq_ok {a : Nat} (h : s.acquire i a = .ok t) :
    s.holder a = none ∧ t = { s with holder := Function.update s.holder a (some i) } := by
  unfold Kitchen.acquire at h
  split at h
  · exact ⟨‹_›, (Except.ok.inj h).symm⟩
  · cases h

theorem release_eq_ok {a : Nat} (h : s.release i a = .ok t) :
    s.holder a = some i ∧ t = { s with holder := Function.update s.holder a none } := by
  unfold Kitchen.release at h
  split at h
  · exact ⟨‹_›, (Except.ok.inj h).symm⟩
  · cases h

theorem bind_setPc {r : Except KitchenFault (Kitchen ι)} {p : AnimalPc}
    (h : (r >>= fun t => .ok (t.setPc i p)) = .ok s') : ∃ t, r = .ok t ∧ t.setPc i p = s' := by
  obtain ⟨t, ht, he⟩ := bind_eq_ok.mp h
  exact ⟨t, ht, Except.ok.inj he⟩

def AnimalPc.awake : AnimalPc → Bool
  | .wait | .asleep _ _ => false
  | _ => true

structure Moves (s s' : Kitchen ι) (i : ι) : Prop where
  run : s'.run = s.run
  others : ∀ j, j ≠ i → s'.animals j = s.animals j ∨ ∃ cv, s'.animals j = (s.animals j).wake cv
  species : (s'.animals i).species = (s.animals i).species
  animalRun : (s'.animals i).run = (s.animals i).run
  sleeps : (s'.animals i).pc.awake = false →
    (s.animals i).pc = .wait ∨ ((s.animals i).pc = .check ∧ 0 < s.num (s.animals i).species.other)

theorem Moves.setPc {p : AnimalPc} (ha : t.animals = s.animals) (hr : t.run = s.run)
    (hp : p.awake = false →
      (s.animals i).pc = .wait ∨ ((s.animals i).pc = .check ∧ 0 < s.num (s.animals i).species.other)) :
    Moves s (t.setPc i p) i := by
  constructor
  case run => exact hr
  case others =>
    intro j hj
    left
    simp [Kitchen.setPc, ha, hj]
  case species => simp [Kitchen.setPc, ha]
  case animalRun => simp [Kitchen.setPc, ha]
  case sleeps =>
    intro hs
    exact hp (by simpa [Kitchen.setPc] using hs)

theorem Moves.of_bind {r : Except KitchenFault (Kitchen ι)} {p : AnimalPc}
    (hr : ∀ t, r = .ok t → t.animals = s.animals ∧ t.run = s.run)
    (h : (do let t ← r; .ok (t.setPc i p)) = .ok s')
    (hp : p.awake = false →
      (s.animals i).pc = .wait ∨ ((s.animals i).pc = .check ∧ 0 < s.num (s.animals i).species.other)) :
    Moves s s' i := by
  obtain ⟨t, ht, rfl⟩ := bind_setPc h
  exact .setPc (hr t ht).1 (hr t ht).2 hp

omit [DecidableEq ι] in
theorem acquire_kin {a : Nat} (h : s.acquire i a = .ok t) : t.animals = s.animals ∧ t.run = s.run := by
  obtain ⟨-, rfl⟩ := acquire_eq_ok h
  exact ⟨rfl, rfl⟩

theorem release_kin {a : Nat} (h : s.release i a = .ok t) : t.animals = s.animals ∧ t.run = s.run := by
  obtain ⟨-, rfl⟩ := release_eq_ok h
  exact ⟨rfl, rfl⟩

omit [DecidableEq ι] in
theorem eatP_eq_ok (h : s.eatP = .ok t) : t.animals = s.animals ∧ t.run = s.run := by
  unfold Kitchen.eatP at h
  split at h
  · cases h
  · obtain rfl := Except.ok.inj h
    exact ⟨rfl, rfl⟩

omit [DecidableEq ι] in
theorem eatBegin_eq_ok {k : Species} {b : Nat} (h : s.eatBegin k b = .ok t) :
    t.animals = s.animals ∧ t.run = s.run := by
  unfold Kitchen.eatBegin at h
  split at h
  · cases h
  · split at h
    · cases h
    · split at h
      · obtain rfl := Except.ok.inj h
        exact ⟨rfl, rfl⟩
      · cases h

omit [DecidableEq ι] in
theorem eatEnd_eq_ok {k : Species} {b : Nat} (h : s.eatEnd k b = .ok t) : t.animals = s.animals ∧ t.run = s.run := by
  unfold Kitchen.eatEnd at h
  split at h
  · obtain rfl := Except.ok.inj h
    exact ⟨rfl, rfl⟩
  · cases h

omit [DecidableEq ι] in
theorem create_animals (n : Nat) (v : SyncVar) :
    (s.create n f v).animals = s.animals ∧ (s.create n f v).run = s.run := by
  cases v <;> exact ⟨rfl, rfl⟩

theorem Animal.wake_kin (cv : Nat) (x : Animal) : (x.wake cv).species = x.species ∧ (x.wake cv).run = x.run := by
  unfold Animal.wake
  split
  · split <;> exact ⟨rfl, rfl⟩
  · exact ⟨rfl, rfl⟩

theorem Moves.step (h : animalStep c s i draw f = .ok s') : Moves s s' i := by
  unfold animalStep at h
  split at h
  · cases h
  · cases hp : (s.animals i).pc <;> rw [hp] at h <;> simp only [animalExec] at h
    case test v =>
      obtain rfl := Except.ok.inj h
      refine .setPc rfl rfl ?_
      split
      · nofun
      · cases v <;> nofun
    case create v =>
      obtain rfl := Except.ok.inj h
      refine .setPc (create_animals _ v).1 (create_animals _ v).2 ?_
      cases v <;> nofun
    case top =>
      split at h
      · obtain ⟨a, -, h⟩ := bind_eq_ok.mp h
        exact .of_bind (fun t ht => acquire_kin ht) h nofun
      · obtain rfl := Except.ok.inj h
        exact .setPc rfl rfl nofun
    case check =>
      obtain rfl := Except.ok.inj h
      refine .setPc rfl rfl ?_
      split
      · rename_i hnum
        exact fun _ => Or.inr ⟨hp, hnum⟩
      · nofun
    case wait =>
      obtain ⟨cv, -, h⟩ := bind_eq_ok.mp h
      obtain ⟨a, -, h⟩ := bind_eq_ok.mp h
      exact .of_bind (fun t ht => release_kin ht) h (fun _ => Or.inl hp)
    case asleep cv l => cases h
    case woken a => exact .of_bind (fun t ht => acquire_kin ht) h nofun
    case take =>
      obtain ⟨a, -, h⟩ := bind_eq_ok.mp h
      split at h
      · cases h
      · obtain rfl := Except.ok.inj h
        exact .setPc rfl rfl nofun
    case pick =>
      obtain ⟨a, -, h⟩ := bind_eq_ok.mp h
      unfold Kitchen.select at h
      split at h
      · cases h
      · split at h
        · obtain rfl := Except.ok.inj h
          exact .setPc rfl rfl nofun
        · obtain rfl := Except.ok.inj h
          refine ⟨rfl, fun _ _ => Or.inl rfl, rfl, rfl, ?_⟩
          rw [hp]
          nofun
    case picked b =>
      obtain ⟨a, -, h⟩ := bind_eq_ok.mp h
      exact .of_bind (fun t ht => release_kin ht) h nofun
    case count b =>
      obtain ⟨a, -, h⟩ := bind_eq_ok.mp h
      exact .of_bind (fun t ht => acquire_kin ht) h nofun
    case counting b =>
      obtain rfl := Except.ok.inj h
      exact .setPc rfl rfl nofun
    case counted b =>
      obtain ⟨a, -, h⟩ := bind_eq_ok.mp h
      exact .of_bind (fun t ht => release_kin ht) h nofun
    case eat b =>
      split at h
      · cases h
      · exact .of_bind (fun t ht => eatP_eq_ok ht) h nofun
    case eatBegin b => exact .of_bind (fun t ht => eatBegin_eq_ok ht) h nofun
    case eating b => exact .of_bind (fun t ht => eatP_eq_ok ht) h nofun
    case eatEnd b => exact .of_bind (fun t ht => eatEnd_eq_ok ht) h nofun
    case uncount b =>
      obtain ⟨a, -, h⟩ := bind_eq_ok.mp h
      exact .of_bind (fun t ht => acquire_kin ht) h nofun
    case uncounting b =>
      obtain ⟨a, -, h⟩ := bind_eq_ok.mp h
      obtain rfl := Except.ok.inj h
      refine .setPc rfl rfl ?_
      split <;> nofun
    case broadcast =>
      obtain ⟨cv, -, h⟩ := bind_eq_ok.mp h
      obtain rfl := Except.ok.inj h
      constructor
      case run => rfl
      case others =>
        intro j hj
        exact Or.inr ⟨cv, by simp [Kitchen.setPc, Kitchen.cvBroadcast, hj]⟩
      case species => simp [Kitchen.setPc, Kitchen.cvBroadcast, (Animal.wake_kin cv _).1]
      case animalRun => simp [Kitchen.setPc, Kitchen.cvBroadcast, (Animal.wake_kin cv _).2]
      case sleeps => simp [Kitchen.setPc, AnimalPc.awake]
    case uncounted =>
      obtain ⟨a, -, h⟩ := bind_eq_ok.mp h
      exact .of_bind (fun t ht => release_kin ht) h nofun
    case give =>
      obtain ⟨a, -, h⟩ := bind_eq_ok.mp h
      obtain rfl := Except.ok.inj h
      refine ⟨rfl, fun j hj => Or.inl (by simp [hj]), by simp, by simp, ?_⟩
      simp [AnimalPc.awake]
    case done => cases h

structure Kin (s s' : Kitchen ι) : Prop where
  run : s'.run = s.run
  species : ∀ j, (s'.animals j).species = (s.animals j).species
  animalRun : ∀ j, (s'.animals j).run = (s.animals j).run

theorem Kin.step (h : animalStep c s i draw f = .ok s') : Kin s s' := by
  have hm := Moves.step h
  have hboth : ∀ j, (s'.animals j).species = (s.animals j).species ∧ (s'.animals j).run = (s.animals j).run := by
    intro j
    by_cases hj : j = i
    · subst hj
      exact ⟨hm.species, hm.animalRun⟩
    · rcases hm.others j hj with he | ⟨cv, he⟩ <;> rw [he]
      · exact ⟨rfl, rfl⟩
      · exact Animal.wake_kin cv _
  exact ⟨hm.run, fun j => (hboth j).1, fun j => (hboth j).2⟩

/-! ## The animals as the others see them -/

structure AnimalView where
  species : Species
  holdsSel : Bool := false
  holdsCnt : Bool := false
  /-- Between `P` and `V` of `BowlThatIsEmpty`. -/
  served : Bool := false
  /-- The bowl chosen and not marked '-' yet. -/
  bowl : Option Nat := none
  /-- Counted in `numcat` or `nummouse`. -/
  counts : Bool := false
  /-- The bowl at which `bowls.c` has it eating. -/
  eats : Option Nat := none
  inMutex : Bool := false
  deriving DecidableEq

def AnimalPc.view (k : Species) : AnimalPc → AnimalView
  | .test _ | .create _ | .top | .asleep _ _ | .woken _ | .done => { species := k }
  | .check | .wait | .take => { species := k, holdsSel := true }
  | .pick => { species := k, holdsSel := true, served := true }
  | .picked b => { species := k, holdsSel := true, served := true, bowl := some b }
  | .count b => { species := k, served := true, bowl := some b }
  | .counting b => { species := k, holdsCnt := true, served := true, bowl := some b }
  | .counted b => { species := k, holdsCnt := true, served := true, bowl := some b, counts := true }
  | .eat b | .uncount b => { species := k, served := true, bowl := some b, counts := true }
  | .eatBegin b => { species := k, served := true, bowl := some b, counts := true, inMutex := true }
  | .eating b => { species := k, served := true, bowl := some b, counts := true, eats := some b }
  | .eatEnd b =>
    { species := k, served := true, bowl := some b, counts := true, eats := some b, inMutex := true }
  | .uncounting b => { species := k, holdsCnt := true, served := true, bowl := some b, counts := true }
  | .broadcast | .uncounted => { species := k, holdsCnt := true, served := true }
  | .give => { species := k, served := true }

def Animal.view (x : Animal) : AnimalView := x.pc.view x.species

def Animal.PlaceOk (x : Animal) : Prop :=
  match x.pc with
  | .create _ => False
  | .asleep cv l => cv = x.species.exclusive.addr ∧ l = SyncVar.bowlSelectLock.addr
  | .woken l => l = SyncVar.bowlSelectLock.addr
  | _ => True

theorem Animal.view_species (x : Animal) : x.view.species = x.species := by
  unfold Animal.view
  cases x.pc <;> rfl

variable [Fintype ι] {N : Nat} {fresh : Nat → Char}

/-- `N` is `NumBowls` and `fresh` what was in the memory of `bowls`. -/
structure Kitchen.Ok (N : Nat) (fresh : Nat → Char) (s : Kitchen ι) : Prop where
  ptr : ∀ v, s.ptr v = some v.addr
  place : ∀ i, (s.animals i).PlaceOk
  sel : ∀ i, s.holder SyncVar.bowlSelectLock.addr = some i ↔ (s.animals i).view.holdsSel = true
  cnt : ∀ i, s.holder SyncVar.counterLock.addr = some i ↔ (s.animals i).view.holdsCnt = true
  sem : s.sem SyncVar.bowlThatIsEmpty.addr + tally (fun x => x.view.served.toNat) s.animals = N
  length : (s.marks SyncVar.bowls.addr).length = N
  marked : ∀ b < N, (s.marks SyncVar.bowls.addr)[b]? = some 'o' ↔
    fresh b = 'o' ∨ ∃ i, (s.animals i).view.bowl = some b
  single : ∀ i j b, (s.animals i).view.bowl = some b → (s.animals j).view.bowl = some b → i = j
  usable : ∀ i b, (s.animals i).view.bowl = some b → b < N ∧ fresh b ≠ 'o'
  num : ∀ k, s.num k = tally (fun x => (decide (x.view.species = k) && x.view.counts).toNat) s.animals
  eatLength : s.eatMarks.length = N
  eatMark : ∀ b < N, (∀ i, (s.animals i).view.eats = some b → s.eatMarks[b]? = some (s.animals i).view.species.letter) ∧
    ((∀ i, (s.animals i).view.eats ≠ some b) → s.eatMarks[b]? = some '-')
  eatCount : ∀ k, s.eatCount k = tally (fun x => (decide (x.view.species = k) && x.view.eats.isSome).toNat) s.animals
  mutex : s.mutex + tally (fun x => x.view.inMutex.toNat) s.animals = 1

theorem eats_bowl {x : Animal} {b : Nat} (h : x.view.eats = some b) : x.view.bowl = some b := by
  unfold Animal.view at h ⊢
  cases hp : x.pc <;> simp_all [AnimalPc.view]

/-! ## One animal moves -/

def LockStep (h h' : Option ι) (i : ι) (b b' : Bool) : Prop :=
  (h' = h ∧ b' = b) ∨ (h = none ∧ h' = some i ∧ b' = true) ∨ (h = some i ∧ h' = none ∧ b' = false)

omit [Fintype ι] in
theorem LockStep.iff {h h' : Option ι} {g g' : ι → Bool} (hs : LockStep h h' i (g i) (g' i))
    (hg : ∀ j, h = some j ↔ g j = true) (ho : ∀ j, j ≠ i → g' j = g j) (j : ι) : h' = some j ↔ g' j = true := by
  by_cases hj : j = i
  · subst hj
    rcases hs with ⟨rfl, hb⟩ | ⟨-, rfl, hb⟩ | ⟨-, rfl, hb⟩
    · rw [hb]
      exact hg j
    · simp [hb]
    · simp [hb]
  · rw [ho j hj]
    rcases hs with ⟨rfl, -⟩ | ⟨rfl, rfl, -⟩ | ⟨rfl, rfl, -⟩
    · exact hg j
    · rw [← hg j]
      simp [Ne.symm hj]
    · rw [← hg j]
      simp [Ne.symm hj]

def BowlStep (l l' : List Char) (o o' : Option Nat) : Prop :=
  (l' = l ∧ o' = o) ∨ (∃ b m, o = none ∧ o' = some b ∧ l[b]? = some m ∧ m ≠ 'o' ∧ l' = l.set b 'o') ∨
    ∃ b, o = some b ∧ o' = none ∧ l' = l.set b '-'

def EatStep (s s' : Kitchen ι) (k : Species) (o o' : Option Nat) : Prop :=
  (s'.eatMarks = s.eatMarks ∧ s'.eatCount = s.eatCount ∧ o' = o) ∨
    (∃ b, o = none ∧ o' = some b ∧ s'.eatMarks = s.eatMarks.set b k.letter ∧
      s'.eatCount = Function.update s.eatCount k (s.eatCount k + 1)) ∨
    ∃ b, o = some b ∧ o' = none ∧ s'.eatMarks = s.eatMarks.set b '-' ∧
      s'.eatCount = Function.update s.eatCount k (s.eatCount k - 1)

structure ViewStep (s t : Kitchen ι) (i : ι) (v v' : AnimalView) : Prop where
  species : v'.species = v.species
  sel : LockStep (s.holder SyncVar.bowlSelectLock.addr) (t.holder SyncVar.bowlSelectLock.addr) i
    v.holdsSel v'.holdsSel
  cnt : LockStep (s.holder SyncVar.counterLock.addr) (t.holder SyncVar.counterLock.addr) i
    v.holdsCnt v'.holdsCnt
  sem : t.sem SyncVar.bowlThatIsEmpty.addr + v'.served.toNat =
    s.sem SyncVar.bowlThatIsEmpty.addr + v.served.toNat
  bowl : BowlStep (s.marks SyncVar.bowls.addr) (t.marks SyncVar.bowls.addr) v.bowl v'.bowl
  num : ∀ k, t.num k + (decide (v.species = k) && v.counts).toNat =
    s.num k + (decide (v.species = k) && v'.counts).toNat
  eat : EatStep s t v.species v.eats v'.eats
  mutex : t.mutex + v'.inMutex.toNat = s.mutex + v.inMutex.toNat

omit [Fintype ι] [DecidableEq ι] in
theorem ViewStep.same (s : Kitchen ι) (i : ι) (v : AnimalView) : ViewStep s s i v v :=
  ⟨rfl, Or.inl ⟨rfl, rfl⟩, Or.inl ⟨rfl, rfl⟩, rfl, Or.inl ⟨rfl, rfl⟩, fun _ => rfl, Or.inl ⟨rfl, rfl, rfl⟩, rfl⟩

section
variable {o : ι → Option Nat} {b₀ : Nat} {v : Option Nat} {l l' : List Char}

omit [Fintype ι] in
theorem exists_update_some (h : o i = none) (b : Nat) :
    (∃ j, Function.update o i (some b₀) j = some b) ↔ b = b₀ ∨ ∃ j, o j = some b := by
  simp only [Function.update_apply]
  grind

omit [Fintype ι] in
theorem exists_update_none (h : o i = some b₀) (hs : ∀ i j b, o i = some b → o j = some b → i = j) (b : Nat) :
    (∃ j, Function.update o i none j = some b) ↔ b ≠ b₀ ∧ ∃ j, o j = some b := by
  simp only [Function.update_apply]
  grind

structure BowlsMarked (N : Nat) (fresh : Nat → Char) (l : List Char) (o : ι → Option Nat) : Prop where
  length : l.length = N
  marked : ∀ b < N, l[b]? = some 'o' ↔ fresh b = 'o' ∨ ∃ i, o i = some b
  single : ∀ i j b, o i = some b → o j = some b → i = j
  usable : ∀ i b, o i = some b → b < N ∧ fresh b ≠ 'o'

omit [Fintype ι] in
theorem BowlsMarked.step (h : BowlsMarked N fresh l o) (hb : BowlStep l l' (o i) v) :
    BowlsMarked N fresh l' (Function.update o i v) := by
  obtain ⟨h1, h2, h3, h4⟩ := h
  rcases hb with ⟨rfl, rfl⟩ | ⟨b₀, m, hi, rfl, hget, hne, rfl⟩ | ⟨b₀, hi, rfl, rfl⟩
  · rw [Function.update_eq_self]
    exact ⟨h1, h2, h3, h4⟩
  · have hlt : b₀ < N := by grind
    -- the bowl was nobody's
    have hfree : fresh b₀ ≠ 'o' ∧ ∀ j, o j ≠ some b₀ := by grind
    refine ⟨by grind, fun b hb => ?_, ?_, ?_⟩
    · rw [exists_update_some hi, List.getElem?_set]
      grind
    · simp only [Function.update_apply]
      grind
    · simp only [Function.update_apply]
      grind
  · have := h4 i b₀ hi
    refine ⟨by grind, fun b hb => ?_, ?_, ?_⟩
    · rw [exists_update_none hi h3, List.getElem?_set]
      grind
    · simp only [Function.update_apply]
      grind
    · simp only [Function.update_apply]
      grind

structure EatMarked (N : Nat) (letter : ι → Char) (l : List Char) (o : ι → Option Nat) : Prop where
  length : l.length = N
  mark : ∀ b < N, (∀ i, o i = some b → l[b]? = some (letter i)) ∧ ((∀ i, o i ≠ some b) → l[b]? = some '-')

omit [Fintype ι] in
theorem EatMarked.take {letter : ι → Char} (h : EatMarked N letter l o) (hi : o i = none) (hb : b₀ < N)
    (hfree : ∀ j, o j ≠ some b₀) : EatMarked N letter (l.set b₀ (letter i)) (Function.update o i (some b₀)) := by
  refine ⟨by rw [List.length_set, h.length], fun b hlt => ?_⟩
  have := h.length
  have := h.mark b hlt
  simp only [Function.update_apply, List.getElem?_set]
  grind

omit [Fintype ι] in
theorem EatMarked.give {letter : ι → Char} (h : EatMarked N letter l o) (hi : o i = some b₀)
    (hs : ∀ j, o j = some b₀ → j = i) : EatMarked N letter (l.set b₀ '-') (Function.update o i none) := by
  refine ⟨by rw [List.length_set, h.length], fun b hlt => ?_⟩
  have := h.length
  have := h.mark b hlt
  simp only [Function.update_apply, List.getElem?_set]
  grind

end

section
variable (h : s.Ok N fresh) (hother : ∀ j, j ≠ i → (s'.animals j).view = (s.animals j).view)

omit [Fintype ι] in
include hother in
theorem view_update {β : Type} (g : AnimalView → β) : (fun j => g (s'.animals j).view) =
    Function.update (fun j => g (s.animals j).view) i (g (s'.animals i).view) := by
  funext j
  by_cases hj : j = i
  · rw [hj, Function.update_self]
  · rw [Function.update_of_ne hj, hother j hj]

include h hother

theorem Kitchen.Ok.bowl_step (hb : BowlStep (s.marks SyncVar.bowls.addr) (s'.marks SyncVar.bowls.addr)
      (s.animals i).view.bowl (s'.animals i).view.bowl) :
    BowlsMarked N fresh (s'.marks SyncVar.bowls.addr) fun j => (s'.animals j).view.bowl := by
  rw [view_update hother AnimalView.bowl]
  exact BowlsMarked.step ⟨h.length, h.marked, h.single, h.usable⟩ hb

theorem Kitchen.Ok.eat_marks (hspecies : (s'.animals i).view.species = (s.animals i).view.species)
    (he : EatStep s s' (s.animals i).view.species (s.animals i).view.eats (s'.animals i).view.eats)
    (hb : BowlsMarked N fresh (s'.marks SyncVar.bowls.addr) fun j => (s'.animals j).view.bowl) :
    EatMarked N (fun j => (s'.animals j).view.species.letter) s'.eatMarks fun j => (s'.animals j).view.eats := by
  have hletter : (fun j => (s'.animals j).view.species.letter) = fun j => (s.animals j).view.species.letter := by
    rw [view_update hother fun v => v.species.letter, hspecies]
    exact Function.update_eq_self ..
  have hmarks : EatMarked N (fun j => (s.animals j).view.species.letter) s.eatMarks fun j => (s.animals j).view.eats :=
    ⟨h.eatLength, h.eatMark⟩
  rw [hletter, view_update hother AnimalView.eats]
  rcases he with ⟨hm, -, ho⟩ | ⟨b₀, ho, ho', hm, -⟩ | ⟨b₀, ho, ho', hm, -⟩
  · rw [ho, hm, Function.update_eq_self]
    exact hmarks
  · have hi := eats_bowl ho'
    rw [ho', hm]
    refine hmarks.take ho (hb.usable i b₀ hi).1 fun j hj => ?_
    have hji : j ≠ i := by
      rintro rfl
      rw [ho] at hj
      cases hj
    rw [← hother j hji] at hj
    exact hji (hb.single j i b₀ (eats_bowl hj) hi)
  · rw [ho', hm]
    exact hmarks.give ho fun j hj => h.single j i b₀ (eats_bowl hj) (eats_bowl ho)

omit [DecidableEq ι] in
theorem Kitchen.Ok.eat_count (hspecies : (s'.animals i).view.species = (s.animals i).view.species)
    (he : EatStep s s' (s.animals i).view.species (s.animals i).view.eats (s'.animals i).view.eats) (k : Species) :
    s'.eatCount k = tally (fun x => (decide (x.view.species = k) && x.view.eats.isSome).toNat) s'.animals := by
  have hsum := tally_step (g := fun x : Animal => (decide (x.view.species = k) && x.view.eats.isSome).toNat)
    (c := s.animals) (d := s'.animals) i (fun j hj => by rw [hother j hj])
  have hk := h.eatCount k
  rw [hspecies] at hsum
  rcases he with ⟨-, hc, ho⟩ | ⟨b₀, ho, ho', -, hc⟩ | ⟨b₀, ho, ho', -, hc⟩
  · rw [ho] at hsum
    rw [hc]
    omega
  · rw [ho, ho'] at hsum
    rw [hc, Function.update_apply]
    grind
  · rw [ho, ho'] at hsum
    rw [hc, Function.update_apply]
    grind

theorem Kitchen.Ok.change (hptr : s'.ptr = s.ptr) (hplace : ∀ j, (s'.animals j).PlaceOk)
    (hv : ViewStep s s' i (s.animals i).view (s'.animals i).view) : s'.Ok N fresh := by
  have hb := h.bowl_step hother hv.bowl
  have he := h.eat_marks hother hv.species hv.eat hb
  refine ⟨hptr ▸ h.ptr, hplace, ?_, ?_, ?_, hb.length, hb.marked, hb.single, hb.usable, fun k => ?_, he.length, he.mark,
    h.eat_count hother hv.species hv.eat, ?_⟩
  · exact LockStep.iff hv.sel h.sel (fun j hj => by rw [hother j hj])
  · exact LockStep.iff hv.cnt h.cnt (fun j hj => by rw [hother j hj])
  · have hsum := tally_step (g := fun x : Animal => x.view.served.toNat) (c := s.animals) (d := s'.animals) i
      (fun j hj => by rw [hother j hj])
    have := h.sem
    have := hv.sem
    omega
  · have hsum := tally_step (g := fun x : Animal => (decide (x.view.species = k) && x.view.counts).toNat)
      (c := s.animals) (d := s'.animals) i (fun j hj => by rw [hother j hj])
    simp only [hv.species] at hsum
    have := h.num k
    have := hv.num k
    omega
  · have hsum := tally_step (g := fun x : Animal => x.view.inMutex.toNat) (c := s.animals) (d := s'.animals) i
      (fun j hj => by rw [hother j hj])
    have := h.mutex
    have := hv.mutex
    omega

end

/-! ## The steps -/

theorem Kitchen.Ok.setAnimal {x : Animal} (h : s.Ok N fresh) (ht : t.animals = Function.update s.animals i x)
    (hptr : t.ptr = s.ptr) (hplace : x.PlaceOk) (hv : ViewStep s t i (s.animals i).view x.view) : t.Ok N fresh := by
  have hself : t.animals i = x := by rw [ht, Function.update_self]
  have hne : ∀ j, j ≠ i → t.animals j = s.animals j := fun j hj => by rw [ht, Function.update_of_ne hj]
  refine h.change (i := i) (fun j hj => by rw [hne j hj]) hptr (fun j => ?_) (by rw [hself]; exact hv)
  by_cases hj : j = i
  · rw [hj, hself]
    exact hplace
  · rw [hne j hj]
    exact h.place j

theorem Kitchen.Ok.setPc {p p' : AnimalPc} (h : s.Ok N fresh) (hp : (s.animals i).pc = p)
    (ht : t.animals = s.animals) (hptr : t.ptr = s.ptr) (hplace : Animal.PlaceOk { s.animals i with pc := p' })
    (hv : ViewStep s t i (p.view (s.animals i).species) (p'.view (s.animals i).species)) :
    (t.setPc i p').Ok N fresh := by
  refine h.setAnimal (x := { s.animals i with pc := p' }) (by rw [Kitchen.setPc, ht]) hptr hplace ?_
  rw [Animal.view, hp]
  exact { hv with }

theorem Kitchen.Ok.walk {p p' : AnimalPc} (h : s.Ok N fresh) (hp : (s.animals i).pc = p)
    (hplace : Animal.PlaceOk { s.animals i with pc := p' })
    (hview : p'.view (s.animals i).species = p.view (s.animals i).species) : (s.setPc i p').Ok N fresh :=
  h.setPc hp rfl rfl hplace (by rw [hview]; exact .same ..)

omit [DecidableEq ι] in
theorem Kitchen.Ok.deref (h : s.Ok N fresh) (v : SyncVar) : s.deref v = .ok v.addr := by
  simp only [Kitchen.deref, h.ptr v]

section
variable {p p' : AnimalPc} (h : s.Ok N fresh) (hp : (s.animals i).pc = p)
  (hplace : Animal.PlaceOk { s.animals i with pc := p' })
include h hp

theorem Kitchen.Ok.acquireSel (hview : p.view (s.animals i).species = { species := (s.animals i).species })
    (ha : s.acquire i SyncVar.bowlSelectLock.addr = .ok t) : (t.setPc i .check).Ok N fresh := by
  obtain ⟨hfree, rfl⟩ := acquire_eq_ok ha
  refine h.setPc hp rfl rfl trivial ?_
  rw [hview]
  exact { ViewStep.same s i _ with sel := Or.inr (Or.inl ⟨hfree, by simp only [Function.update_self], rfl⟩) }

include hplace

theorem Kitchen.Ok.releaseSel
    (hview : p'.view (s.animals i).species = { p.view (s.animals i).species with holdsSel := false })
    (ha : s.release i SyncVar.bowlSelectLock.addr = .ok t) : (t.setPc i p').Ok N fresh := by
  obtain ⟨hheld, rfl⟩ := release_eq_ok ha
  refine h.setPc hp rfl rfl hplace ?_
  rw [hview]
  exact { ViewStep.same s i _ with sel := Or.inr (Or.inr ⟨hheld, by simp only [Function.update_self], rfl⟩) }

theorem Kitchen.Ok.acquireCnt
    (hview : p'.view (s.animals i).species = { p.view (s.animals i).species with holdsCnt := true })
    (ha : s.acquire i SyncVar.counterLock.addr = .ok t) : (t.setPc i p').Ok N fresh := by
  obtain ⟨hfree, rfl⟩ := acquire_eq_ok ha
  refine h.setPc hp rfl rfl hplace ?_
  rw [hview]
  exact { ViewStep.same s i _ with cnt := Or.inr (Or.inl ⟨hfree, by simp only [Function.update_self], rfl⟩) }

theorem Kitchen.Ok.releaseCnt
    (hview : p'.view (s.animals i).species = { p.view (s.animals i).species with holdsCnt := false })
    (ha : s.release i SyncVar.counterLock.addr = .ok t) : (t.setPc i p').Ok N fresh := by
  obtain ⟨hheld, rfl⟩ := release_eq_ok ha
  refine h.setPc hp rfl rfl hplace ?_
  rw [hview]
  exact { ViewStep.same s i _ with cnt := Or.inr (Or.inr ⟨hheld, by simp only [Function.update_self], rfl⟩) }

theorem Kitchen.Ok.eatP
    (hview : p'.view (s.animals i).species = { p.view (s.animals i).species with inMutex := true })
    (hout : (p.view (s.animals i).species).inMutex = false) (ha : s.eatP = .ok t) : (t.setPc i p').Ok N fresh := by
  unfold Kitchen.eatP at ha
  split at ha
  · cases ha
  · rename_i hne
    obtain rfl := Except.ok.inj ha
    refine h.setPc hp rfl rfl hplace ?_
    rw [hview]
    refine { ViewStep.same s i _ with mutex := ?_ }
    rw [hout]
    simp only [Bool.toNat_true, Bool.toNat_false]
    omega

end

section
variable {b : Nat} (h : s.Ok N fresh)
include h

theorem Kitchen.Ok.take (hp : (s.animals i).pc = .take) (hsem : s.sem SyncVar.bowlThatIsEmpty.addr ≠ 0) :
    ({ s with
      sem := Function.update s.sem SyncVar.bowlThatIsEmpty.addr
        (s.sem SyncVar.bowlThatIsEmpty.addr - 1) }.setPc i .pick).Ok N fresh := by
  refine h.setPc hp rfl rfl trivial { ViewStep.same s i _ with sem := ?_ }
  simp only [Function.update_self, AnimalPc.view, Bool.toNat_true, Bool.toNat_false]
  omega

theorem Kitchen.Ok.select (hp : (s.animals i).pc = .pick) (ha : s.select i SyncVar.bowls.addr b = .ok t) :
    t.Ok N fresh := by
  unfold Kitchen.select at ha
  cases hm : (s.marks SyncVar.bowls.addr)[b]? with
  | none => rw [hm] at ha; cases ha
  | some m =>
    simp only [hm] at ha
    split at ha
    · rename_i hne
      obtain rfl := Except.ok.inj ha
      refine h.setPc hp rfl rfl trivial { ViewStep.same s i _ with bowl := ?_ }
      exact Or.inr (Or.inl ⟨b, m, rfl, rfl, hm, hne, by simp only [Function.update_self]⟩)
    · obtain rfl := Except.ok.inj ha
      exact h

theorem Kitchen.Ok.counting (hp : (s.animals i).pc = .counting b) :
    ({ s with
      num := Function.update s.num (s.animals i).species
        (s.num (s.animals i).species + 1) }.setPc i (.counted b)).Ok N fresh := by
  refine h.setPc hp rfl rfl trivial { ViewStep.same s i _ with num := fun k => ?_ }
  by_cases hk : k = (s.animals i).species
  · subst hk
    simp [AnimalPc.view]
  · simp [AnimalPc.view, hk, Ne.symm hk]

theorem Kitchen.Ok.eatBegin (hp : (s.animals i).pc = .eatBegin b)
    (ha : s.eatBegin (s.animals i).species b = .ok t) : (t.setPc i (.eating b)).Ok N fresh := by
  unfold Kitchen.eatBegin at ha
  split at ha
  · cases ha
  · split at ha
    · cases ha
    · split at ha
      · obtain rfl := Except.ok.inj ha
        exact h.setPc hp rfl rfl trivial { ViewStep.same s i _ with
          eat := Or.inr (Or.inl ⟨b, rfl, rfl, rfl, rfl⟩)
          mutex := rfl }
      · cases ha

theorem Kitchen.Ok.eatEnd (hp : (s.animals i).pc = .eatEnd b)
    (ha : s.eatEnd (s.animals i).species b = .ok t) : (t.setPc i (.uncount b)).Ok N fresh := by
  unfold Kitchen.eatEnd at ha
  split at ha
  · obtain rfl := Except.ok.inj ha
    exact h.setPc hp rfl rfl trivial { ViewStep.same s i _ with
      eat := Or.inr (Or.inr ⟨b, rfl, rfl, rfl, rfl⟩)
      mutex := rfl }
  · cases ha

theorem Kitchen.Ok.uncounting (hp : (s.animals i).pc = .uncounting b) :
    (s.uncount i (s.animals i).species SyncVar.bowls.addr b).Ok N fresh := by
  have hcase : ∀ p', Animal.PlaceOk { s.animals i with pc := p' } →
      p'.view (s.animals i).species = { species := (s.animals i).species, holdsCnt := true, served := true } →
      ({ s with
        num := Function.update s.num (s.animals i).species (s.num (s.animals i).species - 1)
        marks := Function.update s.marks SyncVar.bowls.addr
          ((s.marks SyncVar.bowls.addr).set b '-') }.setPc i p').Ok N fresh := by
    intro p' hplace hview
    refine h.setPc hp rfl rfl hplace ?_
    rw [hview]
    refine { ViewStep.same s i _ with
      bowl := Or.inr (Or.inr ⟨b, rfl, rfl, by simp only [Function.update_self]⟩)
      num := fun k => ?_ }
    by_cases hk : k = (s.animals i).species
    · subst hk
      simp [AnimalPc.view]
    · simp [AnimalPc.view, hk, Ne.symm hk]
  unfold Kitchen.uncount
  split
  · exact hcase _ trivial rfl
  · exact hcase _ trivial rfl

end

theorem Animal.wake_view (cv : Nat) (x : Animal) : (x.wake cv).view = x.view := by
  unfold Animal.wake Animal.view
  cases hp : x.pc with
  | asleep c l =>
    by_cases hc : c = cv
    · simp [hc, AnimalPc.view]
    · simp [hc, hp]
  | _ => simp [hp]

theorem Animal.PlaceOk.wake {x : Animal} (h : x.PlaceOk) (cv : Nat) : (x.wake cv).PlaceOk := by
  unfold Animal.wake
  cases hp : x.pc with
  | asleep c l =>
    simp only [Animal.PlaceOk, hp] at h
    by_cases hc : c = cv
    · simp only [if_pos hc]
      exact h.2
    · simp only [if_neg hc, Animal.PlaceOk, hp]
      exact h
  | _ => exact h

omit [DecidableEq ι] in
theorem Kitchen.Ok.cvBroadcast (h : s.Ok N fresh) (cv : Nat) : (s.cvBroadcast cv).Ok N fresh := by
  have hview : ∀ j, ((s.cvBroadcast cv).animals j).view = (s.animals j).view := fun j => Animal.wake_view cv _
  have htally : ∀ g : AnimalView → Nat, tally (fun x => g x.view) (s.cvBroadcast cv).animals =
      tally (fun x => g x.view) s.animals := fun g => Finset.sum_congr rfl fun j _ => by simp only [hview j]
  refine { h with
    place := fun j => (h.place j).wake cv
    sel := fun j => by rw [hview]; exact h.sel j
    cnt := fun j => by rw [hview]; exact h.cnt j
    sem := ?_
    marked := by simp only [hview]; exact h.marked
    single := by simp only [hview]; exact h.single
    usable := by simp only [hview]; exact h.usable
    num := fun k => ?_
    eatMark := by simp only [hview]; exact h.eatMark
    eatCount := fun k => ?_
    mutex := ?_ }
  · rw [htally (fun v => v.served.toNat)]
    exact h.sem
  · rw [htally (fun v => (decide (v.species = k) && v.counts).toNat)]
    exact h.num k
  · rw [htally (fun v => (decide (v.species = k) && v.eats.isSome).toNat)]
    exact h.eatCount k
  · rw [htally (fun v => v.inMutex.toNat)]
    exact h.mutex

theorem Kitchen.Ok.broadcast (h : s.Ok N fresh) (hp : (s.animals i).pc = .broadcast) (cv : Nat) :
    ((s.cvBroadcast cv).setPc i .uncounted).Ok N fresh := by
  have hp' : ((s.cvBroadcast cv).animals i).pc = .broadcast := by
    simp only [Kitchen.cvBroadcast, Animal.wake, hp]
  exact (h.cvBroadcast cv).walk hp' trivial rfl

theorem Kitchen.Ok.give (h : s.Ok N fresh) (hp : (s.animals i).pc = .give) :
    Kitchen.Ok N fresh { s with
      sem := Function.update s.sem SyncVar.bowlThatIsEmpty.addr (s.sem SyncVar.bowlThatIsEmpty.addr + 1)
      animals := Function.update s.animals i { s.animals i with loop := (s.animals i).loop + 1, pc := .top } } := by
  refine h.setAnimal rfl rfl trivial ?_
  rw [Animal.view, hp]
  exact { ViewStep.same s i _ with sem := by simp only [Function.update_self]; rfl }

theorem Kitchen.Ok.step (h : s.Ok N fresh) (hs : animalStep c s i draw f = .ok s') : s'.Ok N fresh := by
  unfold animalStep at hs
  split at hs
  · cases hs
  · cases hp : (s.animals i).pc with
    | test v =>
      simp only [hp, animalExec, h.ptr v] at hs
      obtain rfl := Except.ok.inj hs
      rw [if_neg (by simp)]
      refine h.walk hp ?_ ?_ <;> cases v <;> first | exact trivial | rfl
    | create v => exact absurd (h.place i) (by simp [Animal.PlaceOk, hp])
    | top =>
      simp only [hp, animalExec] at hs
      split at hs
      · rw [h.deref, ok_bind] at hs
        obtain ⟨t, ht, rfl⟩ := bind_setPc hs
        exact h.acquireSel hp rfl ht
      · obtain rfl := Except.ok.inj hs
        exact h.walk hp trivial rfl
    | check =>
      simp only [hp, animalExec] at hs
      obtain rfl := Except.ok.inj hs
      split
      · exact h.walk hp trivial rfl
      · exact h.walk hp trivial rfl
    | wait =>
      simp only [hp, animalExec, h.deref, ok_bind] at hs
      obtain ⟨t, ht, rfl⟩ := bind_setPc hs
      exact h.releaseSel hp ⟨rfl, rfl⟩ rfl ht
    | asleep cv l => simp only [hp, animalExec] at hs; cases hs
    | woken a =>
      simp only [hp, animalExec] at hs
      have ha : a = SyncVar.bowlSelectLock.addr := by
        have := h.place i
        simpa only [Animal.PlaceOk, hp] using this
      subst ha
      obtain ⟨t, ht, rfl⟩ := bind_setPc hs
      exact h.acquireSel hp rfl ht
    | take =>
      simp only [hp, animalExec, h.deref, ok_bind] at hs
      split at hs
      · cases hs
      · obtain rfl := Except.ok.inj hs
        exact h.take hp ‹_›
    | pick =>
      simp only [hp, animalExec, h.deref, ok_bind] at hs
      exact h.select hp hs
    | picked b =>
      simp only [hp, animalExec, h.deref, ok_bind] at hs
      obtain ⟨t, ht, rfl⟩ := bind_setPc hs
      exact h.releaseSel hp trivial rfl ht
    | count b =>
      simp only [hp, animalExec, h.deref, ok_bind] at hs
      obtain ⟨t, ht, rfl⟩ := bind_setPc hs
      exact h.acquireCnt hp trivial rfl ht
    | counting b =>
      simp only [hp, animalExec] at hs
      obtain rfl := Except.ok.inj hs
      exact h.counting hp
    | counted b =>
      simp only [hp, animalExec, h.deref, ok_bind] at hs
      obtain ⟨t, ht, rfl⟩ := bind_setPc hs
      exact h.releaseCnt hp trivial rfl ht
    | eat b =>
      simp only [hp, animalExec] at hs
      split at hs
      · cases hs
      · obtain ⟨t, ht, rfl⟩ := bind_setPc hs
        exact h.eatP hp trivial rfl rfl ht
    | eatBegin b =>
      simp only [hp, animalExec] at hs
      obtain ⟨t, ht, rfl⟩ := bind_setPc hs
      exact h.eatBegin hp ht
    | eating b =>
      simp only [hp, animalExec] at hs
      obtain ⟨t, ht, rfl⟩ := bind_setPc hs
      exact h.eatP hp trivial rfl rfl ht
    | eatEnd b =>
      simp only [hp, animalExec] at hs
      obtain ⟨t, ht, rfl⟩ := bind_setPc hs
      exact h.eatEnd hp ht
    | uncount b =>
      simp only [hp, animalExec, h.deref, ok_bind] at hs
      obtain ⟨t, ht, rfl⟩ := bind_setPc hs
      exact h.acquireCnt hp trivial rfl ht
    | uncounting b =>
      simp only [hp, animalExec, h.deref, ok_bind] at hs
      obtain rfl := Except.ok.inj hs
      exact h.uncounting hp
    | broadcast =>
      simp only [hp, animalExec, h.deref, ok_bind] at hs
      obtain rfl := Except.ok.inj hs
      exact h.broadcast hp _
    | uncounted =>
      simp only [hp, animalExec, h.deref, ok_bind] at hs
      obtain ⟨t, ht, rfl⟩ := bind_setPc hs
      exact h.releaseCnt hp trivial rfl ht
    | give =>
      simp only [hp, animalExec, h.deref, ok_bind] at hs
      obtain rfl := Except.ok.inj hs
      exact h.give hp
    | done => simp only [hp, animalExec] at hs; cases hs

/-! ## What stops an animal -/

def Kitchen.Waits (s : Kitchen ι) (i : ι) : Prop :=
  match (s.animals i).pc with
  | .top | .woken _ => s.holder SyncVar.bowlSelectLock.addr ≠ none
  | .asleep _ _ => True
  | .take => s.sem SyncVar.bowlThatIsEmpty.addr = 0
  | .count _ | .uncount _ => s.holder SyncVar.counterLock.addr ≠ none
  | .eat _ | .eating _ => s.mutex = 0
  | _ => False

def Kitchen.Stops (s : Kitchen ι) (i : ι) (e : KitchenFault) : Prop :=
  (e = .notRunning ∧ ((s.animals i).run ≠ s.run ∨ (s.animals i).pc = .done)) ∨ (e = .blocked ∧ s.Waits i) ∨
    (e = .eatTogether ∧ 0 < s.eatCount (s.animals i).species.other ∧ ∃ b, (s.animals i).pc = .eatBegin b)

omit [Fintype ι] in
theorem Kitchen.post_acquire {p' : AnimalPc} {a : Nat} (hw : s.holder a ≠ none → s.Waits i) :
    Post (do let s ← s.acquire i a; .ok (s.setPc i p')) (fun _ => True) (s.Stops i) := by
  unfold Kitchen.acquire
  by_cases ha : s.holder a = none
  · rw [if_pos ha]
    trivial
  · rw [if_neg ha]
    exact Or.inr (Or.inl ⟨rfl, hw ha⟩)

omit [Fintype ι] in
theorem Kitchen.post_release {p' : AnimalPc} {a : Nat} (ha : s.holder a = some i) :
    Post (do let s ← s.release i a; .ok (s.setPc i p')) (fun _ => True) (s.Stops i) := by
  unfold Kitchen.release
  rw [if_pos ha]
  trivial

omit [Fintype ι] in
theorem Kitchen.post_eatP {p' : AnimalPc} (hw : s.mutex = 0 → s.Waits i) :
    Post (do let s ← s.eatP; .ok (s.setPc i p')) (fun _ => True) (s.Stops i) := by
  unfold Kitchen.eatP
  split
  · exact Or.inr (Or.inl ⟨rfl, hw ‹_›⟩)
  · trivial

section
variable (h : s.Ok N fresh) {p' : AnimalPc} {b : Nat}
include h

theorem Kitchen.Ok.post_select (hp : (s.animals i).pc = .pick) (hrun : c.numBowls s.run = N) (draw : Nat) :
    Post (s.select i SyncVar.bowls.addr (draw % c.numBowls s.run)) (fun _ => True) (s.Stops i) := by
  -- the animal has taken a unit of the semaphore, so there is a bowl
  have hpos : 0 < N := by
    have hsem := h.sem
    have hle := le_tally (f := fun x : Animal => x.view.served.toNat) (c := s.animals) i
    have hserved : (s.animals i).view.served = true := by simp only [Animal.view, hp, AnimalPc.view]
    rw [hserved, Bool.toNat_true] at hle
    omega
  have hlt : draw % c.numBowls s.run < (s.marks SyncVar.bowls.addr).length := by
    rw [h.length, hrun]
    exact Nat.mod_lt _ hpos
  unfold Kitchen.select
  rw [List.getElem?_eq_getElem hlt]
  dsimp only
  split <;> trivial

theorem Kitchen.Ok.post_eatBegin (hp : (s.animals i).pc = .eatBegin b) :
    Post (do let s ← s.eatBegin (s.animals i).species b; .ok (s.setPc i p')) (fun _ => True) (s.Stops i) := by
  have hbowl : (s.animals i).view.bowl = some b := by simp only [Animal.view, hp, AnimalPc.view]
  have hmark : s.eatMarks[b]? = some '-' := by
    refine (h.eatMark b (h.usable i b hbowl).1).2 fun j hj => ?_
    obtain rfl := h.single i j b hbowl (eats_bowl hj)
    simp [Animal.view, hp, AnimalPc.view] at hj
  have hne : ¬ s.eatMarks[b]? = some (s.animals i).species.letter := by
    rw [hmark]
    cases (s.animals i).species <;> decide
  unfold Kitchen.eatBegin
  rw [if_neg hne]
  split
  · rename_i hpos
    exact Or.inr (Or.inr ⟨rfl, hpos, b, hp⟩)
  · rename_i hpos
    have hcount := h.eatCount (s.animals i).species.other
    rw [if_pos ⟨hmark, by omega⟩]
    trivial

theorem Kitchen.Ok.post_eatEnd (hp : (s.animals i).pc = .eatEnd b) :
    Post (do let s ← s.eatEnd (s.animals i).species b; .ok (s.setPc i p')) (fun _ => True) (s.Stops i) := by
  have heats : (s.animals i).view.eats = some b := by simp only [Animal.view, hp, AnimalPc.view]
  have hmark := (h.eatMark b (h.usable i b (eats_bowl heats)).1).1 i heats
  rw [Animal.view_species] at hmark
  have hpos : 0 < s.eatCount (s.animals i).species := by
    rw [h.eatCount]
    have hle := le_tally (f := fun x : Animal => (decide (x.view.species = (s.animals i).species) &&
      x.view.eats.isSome).toNat) (c := s.animals) i
    rw [Animal.view_species, heats] at hle
    simp only [decide_true, Option.isSome_some, Bool.and_self, Bool.toNat_true] at hle
    omega
  unfold Kitchen.eatEnd
  rw [if_pos ⟨hpos, hmark⟩]
  trivial

theorem Kitchen.Ok.stops (hrun : c.numBowls s.run = N) (draw : Nat) (f : Nat → Char) :
    Post (animalStep c s i draw f) (fun _ => True) (s.Stops i) := by
  unfold animalStep
  split
  · exact Or.inl ⟨rfl, Or.inl ‹_›⟩
  · have hsel := h.sel i
    have hcnt := h.cnt i
    have hplace := h.place i
    have husable := h.usable i
    cases hp : (s.animals i).pc <;>
      simp only [hp, Animal.view, AnimalPc.view, Animal.PlaceOk, Bool.false_eq_true, iff_false,
        iff_true] at hsel hcnt hplace husable <;>
      simp only [animalExec, h.deref, ok_bind]
    case test v => trivial
    case top =>
      split
      · exact Kitchen.post_acquire fun hne => by simpa only [Kitchen.Waits, hp] using hne
      · trivial
    case check => trivial
    case wait => exact Kitchen.post_release hsel
    case asleep cv l => exact Or.inr (Or.inl ⟨rfl, by simp only [Kitchen.Waits, hp]⟩)
    case woken l => exact Kitchen.post_acquire fun hne => by simpa only [Kitchen.Waits, hp, hplace] using hne
    case take =>
      split
      · exact Or.inr (Or.inl ⟨rfl, by simpa only [Kitchen.Waits, hp]⟩)
      · trivial
    case pick => exact h.post_select hp hrun draw
    case picked b => exact Kitchen.post_release hsel
    case count b => exact Kitchen.post_acquire fun hne => by simpa only [Kitchen.Waits, hp] using hne
    case counting b => trivial
    case counted b => exact Kitchen.post_release hcnt
    case eat b =>
      rw [if_neg (by rw [hrun]; exact Nat.not_lt.mpr (husable b rfl).1)]
      exact Kitchen.post_eatP fun hm => by simpa only [Kitchen.Waits, hp] using hm
    case eatBegin b => exact h.post_eatBegin hp
    case eating b => exact Kitchen.post_eatP fun hm => by simpa only [Kitchen.Waits, hp] using hm
    case eatEnd b => exact h.post_eatEnd hp
    case uncount b => exact Kitchen.post_acquire fun hne => by simpa only [Kitchen.Waits, hp] using hne
    case uncounting b => trivial
    case broadcast => trivial
    case uncounted => exact Kitchen.post_release hcnt
    case give => trivial
    case done => exact Or.inl ⟨rfl, Or.inr hp⟩

end

/-! ## Between two loops -/

def Kitchen.Idle (s : Kitchen ι) : Prop := ∀ i, (s.animals i).view = { species := (s.animals i).species }

omit [DecidableEq ι] in
theorem Kitchen.Idle.tally_zero (hi : s.Idle) {g : AnimalView → Nat} (hg : ∀ k, g { species := k } = 0) :
    tally (fun x => g x.view) s.animals = 0 :=
  tally_eq_zero fun i => by rw [hi, hg]

omit [DecidableEq ι] in
theorem Kitchen.Ok.of_idle (hi : s.Idle) (hptr : ∀ v, s.ptr v = some v.addr) (hplace : ∀ i, (s.animals i).PlaceOk)
    (hsel : s.holder SyncVar.bowlSelectLock.addr = none) (hcnt : s.holder SyncVar.counterLock.addr = none)
    (hsem : s.sem SyncVar.bowlThatIsEmpty.addr = N)
    (hlength : (s.marks SyncVar.bowls.addr).length = N)
    (hmark : ∀ b < N, (s.marks SyncVar.bowls.addr)[b]? = some 'o' ↔ fresh b = 'o') (hnum : ∀ k, s.num k = 0)
    (heatMarks : s.eatMarks = List.replicate N '-') (heatCount : ∀ k, s.eatCount k = 0) (hmutex : s.mutex = 1) :
    s.Ok N fresh := by
  constructor
  case ptr => exact hptr
  case place => exact hplace
  case sel => simp [hi _, hsel]
  case cnt => simp [hi _, hcnt]
  case sem => rw [hi.tally_zero (g := fun v => v.served.toNat) fun _ => rfl, hsem, Nat.add_zero]
  case length => exact hlength
  case marked =>
    intro b hb
    simp [hi _, hmark b hb]
  case single => simp [hi _]
  case usable => simp [hi _]
  case num =>
    intro k
    rw [hi.tally_zero (g := fun v => (decide (v.species = k) && v.counts).toNat) fun _ => by simp, hnum]
    rfl
  case eatLength => rw [heatMarks, List.length_replicate]
  case eatMark =>
    intro b hb
    simp [hi _, heatMarks, hb]
  case eatCount =>
    intro k
    rw [hi.tally_zero (g := fun v => (decide (v.species = k) && v.eats.isSome).toNat) fun _ => by simp, heatCount]
    rfl
  case mutex => rw [hi.tally_zero (g := fun v => v.inMutex.toNat) fun _ => rfl, hmutex]

section
variable {b : Nat} (hi : s.Idle) (h : s.Ok N fresh)
include hi h
omit [DecidableEq ι]

theorem Kitchen.Idle.sel : s.holder SyncVar.bowlSelectLock.addr = none := by
  rw [Option.eq_none_iff_forall_ne_some]
  intro i hs
  have hholds := (h.sel i).mp hs
  rw [hi] at hholds
  cases hholds

theorem Kitchen.Idle.cnt : s.holder SyncVar.counterLock.addr = none := by
  rw [Option.eq_none_iff_forall_ne_some]
  intro i hs
  have hholds := (h.cnt i).mp hs
  rw [hi] at hholds
  cases hholds

theorem Kitchen.Idle.num (k : Species) : s.num k = 0 := by
  rw [h.num, hi.tally_zero (g := fun v => (decide (v.species = k) && v.counts).toNat) fun _ => by simp]
  rfl

theorem Kitchen.Idle.sem : s.sem SyncVar.bowlThatIsEmpty.addr = N := by
  have hsem := h.sem
  rwa [hi.tally_zero (g := fun v => v.served.toNat) fun _ => rfl, Nat.add_zero] at hsem

theorem Kitchen.Idle.mutex : s.mutex = 1 := by
  have hmutex := h.mutex
  rwa [hi.tally_zero (g := fun v => v.inMutex.toNat) fun _ => rfl, Nat.add_zero] at hmutex

theorem Kitchen.Idle.eatCount (k : Species) : s.eatCount k = 0 := by
  rw [h.eatCount, hi.tally_zero (g := fun v => (decide (v.species = k) && v.eats.isSome).toNat) fun _ => by simp]
  rfl

theorem Kitchen.Idle.eatMark (hb : b < N) : s.eatMarks[b]? = some '-' :=
  (h.eatMark b hb).2 fun i => by simp [hi i]

theorem Kitchen.Idle.marked (hb : b < N) : (s.marks SyncVar.bowls.addr)[b]? = some 'o' ↔ fresh b = 'o' := by
  rw [h.marked b hb]
  simp [hi _]

end

omit [DecidableEq ι] in
theorem Kitchen.Ok.start (kind : ι → Species) : (Kitchen.start c kind fresh).Ok (c.numBowls 0) fresh := by
  refine .of_idle (fun _ => rfl) (fun _ => rfl) (fun _ => trivial) rfl rfl rfl ?_ ?_
    (fun _ => rfl) rfl (fun _ => rfl) rfl
  · simp [Kitchen.start]
  · intro b hb
    simp [Kitchen.start, hb]

end Os161
