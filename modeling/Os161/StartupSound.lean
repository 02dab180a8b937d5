import Os161.CatmouseSound
import Os161.SoloSound
import Mathlib.Data.Fintype.Option

/-!
# Start-up, and one bowl for one animal

`sync_var_init` tests and sets each variable without a lock, leaves the marks
of the bowls as it finds them, and does nothing in a later call of `catmouse`.
If the animals start one at a time, the memory is not marked and the number of
bowls stays, each bowl serves one animal and the selection finds one.
-/

namespace Os161

open Outcome Tally

variable {ι : Type} [DecidableEq ι] {c : Calls} {s s' t : Kitchen ι} {i j : ι} {N draw : Nat} {f fresh : Nat → Char}
  {kind : ι → Species} {run : ι → Nat}

def AnimalPc.inStartup : AnimalPc → Bool
  | .test v => decide (v ≠ .exclusiveCat)
  | .create _ => true
  | _ => false

/-- No animal begins `sync_var_init` while another is inside and `bowls` is not
set, the memory for `bowls` is not marked, and a later call has as many bowls. -/
def KitchenAct.Orderly (c : Calls) (s : Kitchen ι) : KitchenAct ι → Prop
  | .animal i _ fresh =>
    ((s.animals i).pc = .test .exclusiveCat → s.ptr .bowls ≠ none ∨ ∀ j, (s.animals j).pc.inStartup = false) ∧
      ((s.animals i).pc = .create .bowls → ∀ b < c.numBowls s.run, fresh b ≠ 'o')
  | .nextCall =>
    (∀ i, (s.animals i).run = s.run → (s.animals i).pc = .done) ∧ c.numBowls (s.run + 1) = c.numBowls s.run

/-- Each bowl has one animal, the bowls chosen lie in the array, and an animal
that selects one finds one. -/
structure Kitchen.BowlsOk (c : Calls) (s : Kitchen ι) : Prop where
  single : ∀ i j b, (s.animals i).view.bowl = some b → (s.animals j).view.bowl = some b → i = j
  inside : ∀ i b, (s.animals i).view.bowl = some b → ∃ a, s.ptr .bowls = some a ∧ b < (s.marks a).length
  bounds : ∀ i draw f, animalStep c s i draw f ≠ .error .outOfBounds
  finds : ∀ i, (s.animals i).pc = .pick →
    ∃ a, s.ptr .bowls = some a ∧ ∃ b < c.numBowls s.run, ∃ x, (s.marks a)[b]? = some x ∧ x ≠ 'o'

/-! ## Once the variables are set -/

omit [DecidableEq ι] in
theorem Kitchen.Ok.finds [Fintype ι] (h : s.Ok N fresh) (hfresh : ∀ b < N, fresh b ≠ 'o')
    (hp : (s.animals i).pc = .pick) : ∃ b < N, ∃ x, (s.marks SyncVar.bowls.addr)[b]? = some x ∧ x ≠ 'o' := by
  by_contra hne
  push Not at hne
  have howner : ∀ b : Fin N, ∃ j, (s.animals j).view.bowl = some b.val := by
    intro b
    have hlt : b.val < (s.marks SyncVar.bowls.addr).length := by rw [h.length]; exact b.isLt
    have hget := List.getElem?_eq_getElem hlt
    rw [hne b b.isLt _ hget, h.marked b b.isLt] at hget
    exact hget.resolve_left (hfresh b b.isLt)
  choose owner howner using howner
  have hnone : (s.animals i).view.bowl = none := by simp only [Animal.view, hp, AnimalPc.view]
  let g : Option (Fin N) → ι := fun o => o.elim i owner
  have hg : Function.Injective g := by
    rintro (_ | b) (_ | b') hgg
    · rfl
    · have hb := howner b'
      rw [show owner b' = i from hgg.symm, hnone] at hb
      cases hb
    · have hb := howner b
      rw [show owner b = i from hgg, hnone] at hb
      cases hb
    · have hb := howner b
      rw [show owner b = owner b' from hgg, howner b', Option.some.injEq] at hb
      rw [Fin.ext hb]
  have hserved : ∀ o, 1 ≤ (s.animals (g o)).view.served.toNat := by
    rintro (_ | b)
    · simp only [g, Option.elim_none, Animal.view, hp, AnimalPc.view, Bool.toNat_true, Nat.le_refl]
    · have hb := howner b
      show 1 ≤ (s.animals (owner b)).view.served.toNat
      unfold Animal.view at hb ⊢
      cases hq : (s.animals (owner b)).pc <;> simp_all [AnimalPc.view]
  have hcard := card_le_tally (f := fun x : Animal => x.view.served.toNat) (c := s.animals) hg hserved
  have hsem := h.sem
  rw [Fintype.card_option, Fintype.card_fin] at hcard
  omega

theorem Kitchen.Ok.bowlsOk [Fintype ι] (h : s.Ok N fresh) (hfresh : ∀ b < N, fresh b ≠ 'o')
    (hrun : c.numBowls s.run = N) : s.BowlsOk c where
  single := h.single
  inside i b hb := ⟨_, h.ptr _, by rw [h.length]; exact (h.usable i b hb).1⟩
  bounds i draw f he := by
    obtain ⟨he, -⟩ | ⟨he, -⟩ | ⟨he, -⟩ := (h.stops hrun draw f).error_of he <;> cases he
  finds i hp := ⟨_, h.ptr _, by rw [hrun]; exact h.finds hfresh hp⟩

/-! ## While they are set -/

structure Kitchen.Starting (N : Nat) (s : Kitchen ι) (k : Nat) : Prop where
  le : k ≤ SyncVar.bowls.addr
  ptr : ∀ v, s.ptr v = if v.addr < k then some v.addr else none
  next : s.next = k
  holder : ∀ a, s.holder a = none
  sem : SyncVar.bowlThatIsEmpty.addr < k → s.sem SyncVar.bowlThatIsEmpty.addr = N
  num : ∀ k, s.num k = 0
  eatMarks : s.eatMarks = List.replicate N '-'
  eatCount : ∀ k, s.eatCount k = 0
  mutex : s.mutex = 1
  place : (k = 0 ∧ ∀ i, (s.animals i).pc = .test .exclusiveCat) ∨
    ∃ i v, v.addr = k ∧ (s.animals i).run = s.run ∧ (s.animals i).pc.inStartup = true ∧
      ((s.animals i).pc = .test v ∨ (s.animals i).pc = .create v) ∧ ∀ j, j ≠ i → (s.animals j).pc = .test .exclusiveCat

theorem Kitchen.Starting.place_cases {k : Nat} (h : s.Starting N k) (i : ι) :
    (s.animals i).pc = .test .exclusiveCat ∨ ∃ v, v.addr = k ∧
    ((s.animals i).pc = .test v ∨ (s.animals i).pc = .create v) ∧
      (s.animals i).pc.inStartup = true ∧ ∀ j, j ≠ i → (s.animals j).pc = .test .exclusiveCat := by
  rcases h.place with ⟨-, hall⟩ | ⟨j, v, hv, -, hin, hp, hother⟩
  · exact Or.inl (hall i)
  · by_cases hij : i = j
    · subst hij
      exact Or.inr ⟨v, hv, hp, hin, hother⟩
    · exact Or.inl (hother i hij)

theorem Kitchen.Starting.bowlsOk {k : Nat} (h : s.Starting N k) : s.BowlsOk c := by
  have hpc : ∀ i, ∃ v, (s.animals i).pc = .test v ∨ (s.animals i).pc = .create v := by
    intro i
    rcases h.place_cases i with hp | ⟨v, -, hp, -⟩
    · exact ⟨_, Or.inl hp⟩
    · exact ⟨v, hp⟩
  have hbowl : ∀ i, (s.animals i).view.bowl = none := by
    intro i
    unfold Animal.view
    obtain ⟨v, hp | hp⟩ := hpc i <;> rw [hp] <;> rfl
  constructor
  case single => simp [hbowl]
  case inside => simp [hbowl]
  case bounds =>
    intro i draw f
    unfold animalStep
    split
    · nofun
    · obtain ⟨v, hp | hp⟩ := hpc i <;> rw [hp] <;> nofun
  case finds =>
    intro i hpick
    obtain ⟨v, hp | hp⟩ := hpc i <;> rw [hpick] at hp <;> cases hp

/-! ### One step -/

section
variable {k : Nat} {v : SyncVar} (h : s.Starting N k)
include h

theorem Kitchen.Starting.enter (hv : v.addr = k) (hrun : (s.animals i).run = s.run)
    (hother : ∀ j, j ≠ i → (s.animals j).pc = .test .exclusiveCat) : (s.setPc i (.create v)).Starting N k := by
  refine { h with place := Or.inr ⟨i, v, hv, ?_, ?_, Or.inr ?_, fun j hj => ?_⟩ }
  · rw [setPc_animals]
    exact hrun
  · rw [setPc_animals]
    rfl
  · rw [setPc_animals]
  · rw [setPc_of_ne _ _ hj, hother j hj]

omit [DecidableEq ι] in
theorem Kitchen.Starting.create_ptr (hv : v.addr = k) (w : SyncVar) :
    (s.create N f v).ptr w = if w.addr < k + 1 then some w.addr else none := by
  have hptr : (s.create N f v).ptr = Function.update s.ptr v (some k) := by
    rw [← h.next]
    cases v <;> rfl
  subst hv
  rw [hptr]
  by_cases hw : w = v
  · subst hw
    simp
  · have hne : w.addr ≠ v.addr := by revert hw; cases v <;> cases w <;> decide
    rw [Function.update_of_ne hw, h.ptr]
    congr 1
    exact propext ⟨fun hlt => by omega, fun hlt => by omega⟩

omit [DecidableEq ι] in
theorem Kitchen.Starting.create_holder (a : Nat) : (s.create N f v).holder a = none := by
  have hnew : ∀ a', Function.update s.holder a' none a = none := by
    intro a'
    by_cases ha : a = a'
    · rw [ha, Function.update_self]
    · rw [Function.update_of_ne ha, h.holder]
  cases v <;> first | exact h.holder a | exact hnew _

omit [DecidableEq ι] in
theorem Kitchen.Starting.create_sem (hv : v.addr = k) (hk : SyncVar.bowlThatIsEmpty.addr < k + 1) :
    (s.create N f v).sem SyncVar.bowlThatIsEmpty.addr = N := by
  have hnext := h.next
  cases v
  case bowlThatIsEmpty =>
    show Function.update s.sem (s.next + 1 - 1) N SyncVar.bowlThatIsEmpty.addr = N
    rw [Nat.add_sub_cancel, hnext, ← hv, Function.update_self]
  case bowls => exact h.sem (by rw [← hv]; decide)
  all_goals
    rw [← hv] at hk
    exact absurd hk (by decide)

theorem Kitchen.Starting.create (hv : v.addr = k) (hne : v ≠ .bowls) (hrun : (s.animals i).run = s.run)
    (hother : ∀ j, j ≠ i → (s.animals j).pc = .test .exclusiveCat) :
    ((s.create N f v).setPc i v.after).Starting N (k + 1) := by
  obtain ⟨w, hw, haddr, hin⟩ : ∃ w, v.after = .test w ∧ w.addr = v.addr + 1 ∧ (AnimalPc.test w).inStartup = true := by
    cases v
    case bowls => exact absurd rfl hne
    all_goals exact ⟨_, rfl, rfl, rfl⟩
  have hanimals := create_animals (s := s) (f := f) N v
  constructor
  case le =>
    rw [← hv, ← haddr]
    cases w <;> decide
  case ptr => exact h.create_ptr hv
  case next =>
    rw [← h.next]
    cases v <;> rfl
  case holder => exact h.create_holder
  case sem => exact h.create_sem hv
  case num =>
    intro sp
    rw [← h.num sp]
    cases v <;> rfl
  case eatMarks =>
    rw [← h.eatMarks]
    cases v <;> rfl
  case eatCount =>
    intro sp
    rw [← h.eatCount sp]
    cases v <;> rfl
  case mutex =>
    rw [← h.mutex]
    cases v <;> rfl
  case place =>
    refine Or.inr ⟨i, w, by rw [haddr, hv], ?_, ?_, Or.inl ?_, fun j hj => ?_⟩
    · rw [setPc_animals, hanimals.1, setPc_run, hanimals.2]
      exact hrun
    · rw [setPc_animals, hw, hin]
    · rw [setPc_animals, hw]
    · rw [setPc_of_ne _ _ hj, hanimals.1, hother j hj]

theorem Kitchen.Starting.created [Fintype ι] (hk : SyncVar.bowls.addr = k)
    (hother : ∀ j, j ≠ i → (s.animals j).pc = .test .exclusiveCat) :
    ((s.create N f .bowls).setPc i .top).Ok N f := by
  have hpc : ∀ j, ((s.create N f .bowls).setPc i .top).animals j =
      { s.animals j with pc := if j = i then .top else .test .exclusiveCat } := by
    intro j
    by_cases hj : j = i
    · subst hj
      rw [setPc_animals, if_pos rfl]
      rfl
    · rw [setPc_of_ne _ _ hj, if_neg hj, ← hother j hj]
      rfl
  have hmarks : ((s.create N f .bowls).setPc i .top).marks SyncVar.bowls.addr = (List.range N).map f := by
    show Function.update s.marks (s.next + 1 - 1) _ _ = _
    rw [Nat.add_sub_cancel, h.next, ← hk, Function.update_self]
  refine .of_idle (fun j => ?_) (fun v => ?_) (fun j => ?_) (h.holder _) (h.holder _)
    (h.sem (by rw [← hk]; decide)) ?_ ?_ h.num h.eatMarks h.eatCount h.mutex
  · rw [hpc]
    unfold Animal.view
    split <;> rfl
  · show (s.create N f .bowls).ptr v = _
    rw [h.create_ptr hk, ← hk, if_pos]
    cases v <;> decide
  · rw [hpc]
    unfold Animal.PlaceOk
    by_cases hj : j = i <;> simp only [hj, if_true, if_false]
  · rw [hmarks, List.length_map, List.length_range]
  · intro b hb
    rw [hmarks]
    simp [hb]

end

theorem Kitchen.Starting.step [Fintype ι] {k : Nat} (h : s.Starting N k) (hN : c.numBowls s.run = N)
    (hord : (KitchenAct.animal i draw f).Orderly c s) (hs : animalStep c s i draw f = .ok s') :
    (∃ k, s'.Starting N k) ∨ ∃ fresh, (∀ b < N, fresh b ≠ 'o') ∧ s'.Ok N fresh := by
  unfold animalStep at hs
  split at hs
  · cases hs
  · rename_i hrun
    rw [not_not] at hrun
    have hunset : ∀ v : SyncVar, v.addr = k → s.ptr v = none := by
      intro v hv
      rw [h.ptr, if_neg (by omega)]
    rcases h.place_cases i with hp | ⟨v, hv, hp | hp, -, hother⟩ <;> rw [hp] at hs <;> simp only [animalExec] at hs
    · -- the animal begins, so nobody is inside
      have hbowls : s.ptr .bowls = none := by
        rw [h.ptr, if_neg (Nat.not_lt.mpr h.le)]
      have hnone := (hord.1 hp).resolve_left (not_not.mpr hbowls)
      obtain ⟨hk, hall⟩ : k = 0 ∧ ∀ i, (s.animals i).pc = .test .exclusiveCat := by
        refine h.place.resolve_right ?_
        rintro ⟨j, v, -, -, hin, -⟩
        rw [hnone j] at hin
        cases hin
      obtain rfl := Except.ok.inj hs
      rw [if_pos (hunset .exclusiveCat hk.symm)]
      exact Or.inl ⟨k, h.enter hk.symm hrun fun j _ => hall j⟩
    · obtain rfl := Except.ok.inj hs
      rw [if_pos (hunset v hv)]
      exact Or.inl ⟨k, h.enter hv hrun hother⟩
    · obtain rfl := Except.ok.inj hs
      rw [hN]
      by_cases hlast : v = .bowls
      · subst hlast
        exact Or.inr ⟨f, hN ▸ hord.2 hp, h.created hv hother⟩
      · exact Or.inl ⟨k + 1, h.create hv hlast hrun hother⟩

/-! ## Whole runs -/

structure Kitchen.InOrder [Fintype ι] (c : Calls) (N : Nat) (s : Kitchen ι) : Prop where
  bowls : c.numBowls s.run = N
  past : ∀ i, (s.animals i).run < s.run → (s.animals i).pc = .done
  future : ∀ i, s.run < (s.animals i).run → (s.animals i).pc = .test .exclusiveCat
  state : (∃ k, s.Starting N k) ∨ ∃ fresh, (∀ b < N, fresh b ≠ 'o') ∧ s.Ok N fresh

section
variable [Fintype ι] (h : s.InOrder c N)
include h

theorem Kitchen.InOrder.animal (hord : (KitchenAct.animal i draw f).Orderly c s)
    (hs : animalStep c s i draw f = .ok s') : s'.InOrder c N := by
  have hm := Moves.step hs
  have hkin := Kin.step hs
  have hrun : (s.animals i).run = s.run := by
    by_contra hne
    unfold animalStep at hs
    rw [if_pos hne] at hs
    cases hs
  -- an animal of another call does not sleep, so it is as it was
  have hsame : ∀ j, (s.animals j).run ≠ s.run → (s.animals j).pc = .done ∨ (s.animals j).pc = .test .exclusiveCat →
      (s'.animals j).pc = (s.animals j).pc := by
    intro j hj hp
    have hji : j ≠ i := by
      rintro rfl
      exact hj hrun
    rcases hm.others j hji with he | ⟨cv, he⟩
    · rw [he]
    · rw [he]
      unfold Animal.wake
      rcases hp with hp | hp <;> rw [hp] <;> simp only [hp]
  constructor
  case bowls => rw [hkin.run, h.bowls]
  case past =>
    intro j hj
    rw [hkin.run, hkin.animalRun] at hj
    have hdone := h.past j hj
    rw [hsame j (Nat.ne_of_lt hj) (Or.inl hdone), hdone]
  case future =>
    intro j hj
    rw [hkin.run, hkin.animalRun] at hj
    have htest := h.future j hj
    rw [hsame j (Nat.ne_of_gt hj) (Or.inr htest), htest]
  case state =>
    rcases h.state with ⟨k, hstart⟩ | ⟨fresh, hfresh, hok⟩
    · exact hstart.step h.bowls hord hs
    · exact Or.inr ⟨fresh, hfresh, hok.step hs⟩

omit [DecidableEq ι] in
theorem Kitchen.InOrder.call (hord : KitchenAct.nextCall.Orderly c s) : (nextCall c s).InOrder c N := by
  obtain ⟨hdone, hN⟩ := hord
  have hN' : c.numBowls (s.run + 1) = N := by rw [hN, h.bowls]
  constructor
  case bowls => exact hN'
  case past =>
    intro i hi
    rcases Nat.lt_or_eq_of_le (Nat.lt_succ_iff.mp hi) with hlt | heq
    · exact h.past i hlt
    · exact hdone i heq
  case future =>
    intro i hi
    exact h.future i (Nat.lt_of_succ_lt hi)
  case state =>
    rcases h.state with ⟨k, hstart⟩ | ⟨fresh, hfresh, hok⟩
    · refine Or.inl ⟨k, { hstart with eatMarks := ?_, eatCount := fun _ => rfl, mutex := rfl, place := Or.inl ?_ }⟩
      · rw [← hN']
        rfl
      · refine hstart.place.resolve_right ?_
        rintro ⟨i, v, -, hrun, hin, -⟩
        rw [hdone i hrun] at hin
        cases hin
    · have hidle : s.Idle := by
        intro i
        unfold Animal.view
        rcases Nat.lt_trichotomy (s.animals i).run s.run with hlt | heq | hgt
        · rw [h.past i hlt]
          rfl
        · rw [hdone i heq]
          rfl
        · rw [h.future i hgt]
          rfl
      have heat : (nextCall c s).eatMarks = List.replicate N '-' := by
        rw [← hN']
        rfl
      exact Or.inr ⟨fresh, hfresh, .of_idle (s := nextCall c s) hidle hok.ptr hok.place (hidle.sel hok) (hidle.cnt hok)
        (hidle.sem hok) hok.length (fun b hb => hidle.marked hok hb) (hidle.num hok) heat (fun _ => rfl) rfl⟩

theorem Kitchen.InOrder.bowlsOk : s.BowlsOk c := by
  rcases h.state with ⟨k, hstart⟩ | ⟨fresh, hfresh, hok⟩
  · exact hstart.bowlsOk
  · exact hok.bowlsOk hfresh h.bowls

end

omit [DecidableEq ι] in
theorem Kitchen.InOrder.boot [Fintype ι] : (Kitchen.boot c kind run).InOrder c (c.numBowls 0) where
  bowls := rfl
  past i hi := absurd hi (Nat.not_lt_zero _)
  future _ _ := rfl
  state := by
    refine Or.inl ⟨0, ?_⟩
    constructor
    case le => exact Nat.zero_le _
    case ptr => exact fun _ => rfl
    case next => rfl
    case holder => exact fun _ => rfl
    case sem => exact fun hk => absurd hk (by decide)
    case num => exact fun _ => rfl
    case eatMarks => rfl
    case eatCount => exact fun _ => rfl
    case mutex => rfl
    case place => exact Or.inl ⟨rfl, fun _ => rfl⟩

/-- In every orderly run, over all calls of `catmouse`, a bowl serves one
animal at a time and the selection finds a bowl inside the array. -/
theorem bowls_serve_in_turn [Fintype ι] (c : Calls) (kind : ι → Species) (run : ι → Nat) (s : Kitchen ι)
    (h : Reach (kitchenStep c) (fun s a => a.Orderly c s) (Kitchen.boot c kind run) s) : s.BowlsOk c := by
  refine (Reach.invariant (I := Kitchen.InOrder c (c.numBowls 0)) .boot (fun s a s' hI hord hs => ?_) h).bowlsOk
  cases a with
  | animal i draw f => exact hI.animal hord hs
  | nextCall =>
    obtain rfl := Except.ok.inj hs
    exact hI.call hord

instance [Fintype ι] (s : Kitchen ι) (a : KitchenAct ι) : Decidable (a.Callable s) :=
  match a with
  | .animal _ _ _ => inferInstanceAs (Decidable True)
  | .nextCall => inferInstanceAs (Decidable (∀ _, _))

instance [Fintype ι] (c : Calls) (s : Kitchen ι) (a : KitchenAct ι) : Decidable (a.Orderly c s) :=
  match a with
  | .animal _ _ _ => inferInstanceAs (Decidable (_ ∧ _))
  | .nextCall => inferInstanceAs (Decidable (_ ∧ _))

theorem bowls_serve_in_turn_twice :
    ∃ s : Kitchen (Fin 2), Reach (kitchenStep ⟨fun _ => 1, fun _ => 1⟩)
    (fun s a => a.Orderly ⟨fun _ => 1, fun _ => 1⟩ s)
        (Kitchen.boot ⟨fun _ => 1, fun _ => 1⟩ (fun _ => .cat) fun i => i.val) s ∧
      (s.animals 0).pc = .done ∧ (s.animals 1).pc = .pick ∧ s.BowlsOk ⟨fun _ => 1, fun _ => 1⟩ := by
  let cat : Fin 2 → KitchenAct (Fin 2) := fun i => .animal i 0 fun _ => '-'
  have hreach : ∃ s : Kitchen (Fin 2), Reach (kitchenStep ⟨fun _ => 1, fun _ => 1⟩)
      (fun s a => a.Orderly ⟨fun _ => 1, fun _ => 1⟩ s)
      (Kitchen.boot ⟨fun _ => 1, fun _ => 1⟩ (fun _ => .cat) fun i => i.val) s ∧
      (s.animals 0).pc = .done ∧ (s.animals 1).pc = .pick :=
    Reach.of_leads (Q := fun s : Kitchen (Fin 2) => (s.animals 0).pc = .done ∧ (s.animals 1).pc = .pick)
      (l := List.replicate 30 (cat 0) ++ [.nextCall] ++ List.replicate 9 (cat 1)) (by decide +kernel)
  obtain ⟨s, hs, h₀, h₁⟩ := hreach
  exact ⟨s, hs, h₀, h₁, bowls_serve_in_turn _ _ _ s hs⟩

/-! ## What goes wrong otherwise -/

theorem no_bowl_found :
    ∃ s : Kitchen (Fin 1), Reach (kitchenStep ⟨fun _ => 1, fun _ => 1⟩) (fun s a => a.Callable s)
        (Kitchen.boot ⟨fun _ => 1, fun _ => 1⟩ (fun _ => .cat) fun _ => 0) s ∧
      (s.animals 0).pc = .pick ∧ s.ptr .bowls = some 5 ∧ s.marks 5 = ['o'] :=
  Reach.of_leads (Q := fun s : Kitchen (Fin 1) => (s.animals 0).pc = .pick ∧ s.ptr .bowls = some 5 ∧ s.marks 5 = ['o'])
    (l := List.replicate 15 (.animal 0 0 fun _ => 'o')) (by decide +kernel)

theorem bowl_out_of_bounds :
    ∃ s : Kitchen (Fin 2), Reach (kitchenStep ⟨fun n => n + 1, fun _ => 1⟩) (fun s a => a.Callable s)
        (Kitchen.boot ⟨fun n => n + 1, fun _ => 1⟩ (fun _ => .cat) fun i => i.val) s ∧
      animalStep ⟨fun n => n + 1, fun _ => 1⟩ s 1 1 (fun _ => '-') = .error .outOfBounds := by
  let cat : Fin 2 → KitchenAct (Fin 2) := fun i => .animal i 0 fun _ => '-'
  have hreach : ∃ s : Kitchen (Fin 2), Reach (kitchenStep ⟨fun n => n + 1, fun _ => 1⟩) (fun s a => a.Callable s)
      (Kitchen.boot ⟨fun n => n + 1, fun _ => 1⟩ (fun _ => .cat) fun i => i.val) s ∧
      Post (animalStep ⟨fun n => n + 1, fun _ => 1⟩ s 1 1 fun _ => '-') (fun _ => False) (· = .outOfBounds) :=
    Reach.of_leads (Q := fun s : Kitchen (Fin 2) =>
        Post (animalStep ⟨fun n => n + 1, fun _ => 1⟩ s 1 1 fun _ => '-') (fun _ => False) (· = .outOfBounds))
      (l := List.replicate 30 (cat 0) ++ [.nextCall] ++ List.replicate 9 (cat 1)) (by decide +kernel)
  obtain ⟨s, hs, he⟩ := hreach
  exact ⟨s, hs, he.eq_error⟩

theorem bowl_shared :
    ∃ s : Kitchen (Fin 2), Reach (kitchenStep ⟨fun _ => 2, fun _ => 1⟩) (fun s a => a.Callable s)
        (Kitchen.boot ⟨fun _ => 2, fun _ => 1⟩ (fun _ => .cat) fun _ => 0) s ∧
      (s.animals 0).pc = .count 0 ∧ (s.animals 1).pc = .picked 0 := by
  let cat : Fin 2 → KitchenAct (Fin 2) := fun i => .animal i 0 fun _ => '-'
  exact Reach.of_leads (Q := fun s : Kitchen (Fin 2) => (s.animals 0).pc = .count 0 ∧ (s.animals 1).pc = .picked 0)
    (l := List.replicate 10 (cat 0) ++ List.replicate 5 (cat 1) ++ [cat 0, cat 1] ++ List.replicate 6 (cat 0) ++
      List.replicate 5 (cat 1)) (by decide +kernel)

theorem bowls_not_in_turn :
    (∃ s : Kitchen (Fin 1), Reach (kitchenStep ⟨fun _ => 1, fun _ => 1⟩) (fun s a => a.Callable s)
        (Kitchen.boot ⟨fun _ => 1, fun _ => 1⟩ (fun _ => .cat) fun _ => 0) s ∧
      (s.animals 0).pc = .pick ∧ s.ptr .bowls = some 5 ∧ s.marks 5 = ['o']) ∧
    (∃ s : Kitchen (Fin 2), Reach (kitchenStep ⟨fun n => n + 1, fun _ => 1⟩) (fun s a => a.Callable s)
        (Kitchen.boot ⟨fun n => n + 1, fun _ => 1⟩ (fun _ => .cat) fun i => i.val) s ∧
      animalStep ⟨fun n => n + 1, fun _ => 1⟩ s 1 1 (fun _ => '-') = .error .outOfBounds) ∧
    ∃ s : Kitchen (Fin 2), Reach (kitchenStep ⟨fun _ => 2, fun _ => 1⟩) (fun s a => a.Callable s)
        (Kitchen.boot ⟨fun _ => 2, fun _ => 1⟩ (fun _ => .cat) fun _ => 0) s ∧
      (s.animals 0).pc = .count 0 ∧ (s.animals 1).pc = .picked 0 :=
  ⟨no_bowl_found, bowl_out_of_bounds, bowl_shared⟩

end Os161
