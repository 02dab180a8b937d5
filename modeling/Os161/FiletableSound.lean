import Os161.Filetable
import Os161.Lib.Outcome
import Mathlib.Data.List.Nodup
import Mathlib.Tactic.IntervalCases

/-!
# When a descriptor is closed

`ft_add` counts an owner when it appends a slot and does not when it fills an
empty one; `ft_remove` takes one owner away in both cases. So a descriptor is
closed by the `ft_remove` of its slot exactly if it came with `numOwners` 0
into an appended slot or with 1 into an empty one.
-/

namespace Os161

open Outcome

variable {ft ft' : Filetable} {t t' : FtRun} {i j fd : Nat} {fti : Int} {slot : Option Nat}

/-! ## Tables with their standard streams -/

structure Filetable.Attached (ft : Filetable) : Prop where
  std : ∀ i < 3, ∃ fd, ft.filedescriptor[i]? = some (some fd)

theorem Filetable.Attached.size (h : ft.Attached) : 3 ≤ ftArraySize ft := by
  obtain ⟨fd, hfd⟩ := h.std 2 (by decide)
  obtain ⟨hlt, -⟩ := List.getElem?_eq_some_iff.mp hfd
  exact hlt

theorem ftGetStd_eq (h : ft.Attached) (hi : 0 ≤ fti) : ftGetStd ft fti = .ok ft := by
  unfold ftGetStd
  by_cases h3 : fti < 3
  · obtain ⟨fd, hfd⟩ := h.std fti.toNat (by omega)
    rw [if_pos h3]
    simp only [ftArrayGetguy, hfd, ok_bind]
  · rw [if_neg h3]

theorem ftGet_eq (h : ft.Attached) (hi : 0 ≤ fti) (hs : ft.filedescriptor[fti.toNat]? = some slot) :
    ftGet ft fti = .ok (slot, ft) := by
  obtain ⟨hlt, -⟩ := List.getElem?_eq_some_iff.mp hs
  have hget : ftArrayGetguy ft fti.toNat = .ok slot := by
    simp only [ftArrayGetguy, hs]
  unfold ftGet
  rw [if_neg (Int.not_lt.mpr hi), ftGetStd_eq h hi, ok_bind, ftArraySize, if_neg (Nat.not_le.mpr hlt), hget, ok_bind]

/-! ## Adding -/

theorem ftAddLoop_eq (h : ft.Attached) {m : Nat} (hr : openMax ≤ i + m) (hi : i ≤ openMax)
    (his : i ≤ ftArraySize ft) :
    ∃ n ≤ openMax,
      (n < openMax ∧ ft.filedescriptor[n]? = some none ∧ ftAddLoop m i ft = .ok (some n, n, ft)) ∨
        (ftAddLoop m i ft = .ok (none, n, ft) ∧ (n = openMax ∨ n = ftArraySize ft) ∧
          ∀ j, i ≤ j → j < n → ft.filedescriptor[j]? ≠ some none) := by
  induction m generalizing i with
  | zero => exact ⟨i, hi, Or.inr ⟨rfl, Or.inl (by omega), by omega⟩⟩
  | succ m ih =>
    unfold ftAddLoop
    by_cases hc : i < ftArraySize ft ∧ i < openMax
    · obtain ⟨slot, hslot⟩ : ∃ slot, ft.filedescriptor[i]? = some slot := ⟨_, List.getElem?_eq_getElem hc.1⟩
      rw [if_pos hc, ftGet_eq h (Int.natCast_nonneg i) hslot, ok_bind]
      cases slot with
      | none => exact ⟨i, hi, Or.inl ⟨hc.2, hslot, rfl⟩⟩
      | some fd =>
        obtain ⟨n, hn, hfound | ⟨hloop, hend, hall⟩⟩ := ih (i := i + 1) (by omega) (by omega) (by omega)
        · exact ⟨n, hn, Or.inl hfound⟩
        · refine ⟨n, hn, Or.inr ⟨hloop, hend, fun j hj hjn => ?_⟩⟩
          by_cases he : j = i
          · rw [he, hslot]
            nofun
          · exact hall j (by omega) hjn
    · rw [if_neg hc]
      exact ⟨i, hi, Or.inr ⟨rfl, by omega, by omega⟩⟩

def Filetable.append (ft : Filetable) (fd : Nat) : Filetable :=
  { ft with
    filedescriptor := ft.filedescriptor ++ [some fd]
    memory := Function.update ft.memory fd
      { ft.memory fd with numOwners := (ft.memory fd).numOwners + 1 } }

def Filetable.fill (ft : Filetable) (n : Nat) (guy : Option Nat) : Filetable :=
  { ft with filedescriptor := ft.filedescriptor.set n guy }

theorem ftAdd_cases (h : ft.Attached) (fd : Nat) :
    ftAdd ft fd = .ok (-1, ft) ∨
      (∃ n : Nat, n < openMax ∧ ft.filedescriptor[n]? = some none ∧
        ftAdd ft fd = .ok ((n : Int), ft.fill n (some fd))) ∨
      (ftArraySize ft < openMax ∧ none ∉ ft.filedescriptor ∧
        ftAdd ft fd = .ok ((ftArraySize ft : Int), ft.append fd)) := by
  have hsize := h.size
  obtain ⟨n, hn, ⟨hlt, hslot, hloop⟩ | ⟨hloop, hend, hall⟩⟩ :=
    ftAddLoop_eq h (i := 0) (m := openMax) (by omega) (by omega) (by omega)
  · obtain ⟨hns, -⟩ := List.getElem?_eq_some_iff.mp hslot
    refine Or.inr (Or.inl ⟨n, hlt, hslot, ?_⟩)
    unfold ftAdd
    rw [hloop]
    simp only [ok_bind, ftArraySetguy, ftArraySize, hns, if_true]
    rfl
  · by_cases hmax : n = openMax
    · left
      unfold ftAdd
      rw [hloop]
      simp only [ok_bind, if_pos hmax]
    · obtain rfl : n = ftArraySize ft := by tauto
      refine Or.inr (Or.inr ⟨by omega, fun hm => ?_, ?_⟩)
      · obtain ⟨j, hj⟩ := List.mem_iff_getElem?.mp hm
        obtain ⟨hlt, -⟩ := List.getElem?_eq_some_iff.mp hj
        exact hall j (Nat.zero_le j) hlt hj
      · unfold ftAdd
        rw [hloop]
        simp only [ok_bind, if_neg hmax, ne_eq, show ¬ ftArraySize ft = 0 by omega, not_false_eq_true, if_true]
        rfl

/-! ## Removing -/

def Filetable.drop (ft : Filetable) (fd : Nat) : Filetable :=
  { ft with
    memory := Function.update ft.memory fd
      { ft.memory fd with numOwners := (ft.memory fd).numOwners - 1 }
    closed := if (ft.memory fd).numOwners - 1 = 0 then fd :: ft.closed else ft.closed }

theorem ftRemove_eq (h : ft.Attached) (hi : 0 ≤ fti) (hs : ft.filedescriptor[fti.toNat]? = some (some fd)) :
    ftRemove ft fti = .ok ((ft.drop fd).fill fti.toNat none) := by
  obtain ⟨hlt, -⟩ := List.getElem?_eq_some_iff.mp hs
  unfold ftRemove
  rw [ftGet_eq h hi hs]
  simp only [ok_bind, ftArraySetguy, ftArraySize, if_pos hlt]
  rfl

/-! ## The invariant -/

def Added.owners (a : Added) : Int := if a.appended then a.numOwners + 1 else a.numOwners

structure FtRun.Ok (t : FtRun) : Prop where
  attached : t.ft.Attached
  slots : ∀ (i j fd : Nat), t.ft.filedescriptor[i]? = some (some fd) → t.ft.filedescriptor[j]? = some (some fd) → i = j
  allocated : ∀ (i fd : Nat), t.ft.filedescriptor[i]? = some (some fd) → fd < t.ft.next
  user : ∀ (i fd : Nat), 3 ≤ i → t.ft.filedescriptor[i]? = some (some fd) → ∃ a ∈ t.added, a.fd = fd
  addedAllocated : ∀ a ∈ t.added, a.fd < t.ft.next
  addedOnce : (t.added.map Added.fd).Nodup
  held : ∀ a ∈ t.added, some a.fd ∈ t.ft.filedescriptor →
    (t.ft.memory a.fd).numOwners = a.owners ∧ a.fd ∉ t.ft.closed
  removed : ∀ a ∈ t.added, some a.fd ∉ t.ft.filedescriptor → (a.fd ∈ t.ft.closed ↔ a.owners = 1)
  closedAdded : ∀ fd ∈ t.ft.closed, ∃ a ∈ t.added, a.fd = fd
  closedOnce : t.ft.closed.Nodup

theorem start_table (console : Nat) :
    (FtRun.start console).ft.filedescriptor = [some 1, some 2, some 3] ∧ (FtRun.start console).ft.next = 4 :=
  ⟨rfl, rfl⟩

theorem FtRun.Ok.start (console : Nat) : (FtRun.start console).Ok := by
  obtain ⟨htable, hnext⟩ := start_table console
  refine ⟨⟨fun i hi => ?_⟩, fun i j fd hi hj => ?_, fun i fd hi => ?_, fun i fd h3 hi => ?_, nofun,
    List.nodup_nil, nofun, nofun, nofun, List.nodup_nil⟩
  · rw [htable]
    exact ⟨i + 1, by interval_cases i <;> rfl⟩
  · rw [htable] at hi hj
    obtain ⟨hi₁, hi₂⟩ := List.getElem?_eq_some_iff.mp hi
    obtain ⟨hj₁, hj₂⟩ := List.getElem?_eq_some_iff.mp hj
    have hnd : ([some 1, some 2, some 3] : List (Option Nat)).Nodup := by decide
    exact (hnd.getElem_inj_iff).mp (hi₂.trans hj₂.symm)
  · rw [htable] at hi
    rw [hnext]
    have hm := List.mem_of_getElem? hi
    simp only [List.mem_cons, Option.some.injEq, List.not_mem_nil, or_false] at hm
    omega
  · rw [htable, List.getElem?_eq_none (by simpa using h3)] at hi
    cases hi

theorem mem_table_iff : some fd ∈ ft.filedescriptor ↔ ∃ i : Nat, ft.filedescriptor[i]? = some (some fd) :=
  List.mem_iff_getElem?

theorem FtRun.Ok.next_notMem (h : t.Ok) : some t.ft.next ∉ t.ft.filedescriptor := by
  intro hm
  obtain ⟨i, hi⟩ := mem_table_iff.mp hm
  exact Nat.lt_irrefl _ (h.allocated i _ hi)

theorem FtRun.Ok.add (h : t.Ok) {n : Nat} {a : Added} (hn : 3 ≤ n) (ha : a.fd = t.ft.next)
    (hnext : ft'.next = t.ft.next + 1) (hclosed : ft'.closed = t.ft.closed)
    (hslots : ∀ (i fd : Nat), ft'.filedescriptor[i]? = some (some fd) ↔
      (i = n ∧ fd = t.ft.next) ∨ t.ft.filedescriptor[i]? = some (some fd))
    (hmem : ∀ fd, fd ≠ t.ft.next → ft'.memory fd = t.ft.memory fd)
    (hown : (ft'.memory t.ft.next).numOwners = a.owners) :
    FtRun.Ok { ft := ft', added := a :: t.added } := by
  have hin : ∀ fd, some fd ∈ ft'.filedescriptor ↔ fd = t.ft.next ∨ some fd ∈ t.ft.filedescriptor := by
    intro fd
    rw [mem_table_iff, mem_table_iff]
    constructor
    · rintro ⟨i, hi⟩
      rcases (hslots i fd).mp hi with ⟨-, rfl⟩ | hi
      · exact Or.inl rfl
      · exact Or.inr ⟨i, hi⟩
    · rintro (rfl | ⟨i, hi⟩)
      · exact ⟨n, (hslots n _).mpr (Or.inl ⟨rfl, rfl⟩)⟩
      · exact ⟨i, (hslots i fd).mpr (Or.inr hi)⟩
  have hold : ∀ b ∈ t.added, b.fd ≠ t.ft.next := fun b hb => Nat.ne_of_lt (h.addedAllocated b hb)
  have hnew : t.ft.next ∉ t.ft.closed := by
    intro hc
    obtain ⟨b, hb, hbe⟩ := h.closedAdded _ hc
    exact hold b hb hbe
  refine ⟨⟨fun i hi => ?_⟩, fun i j fd hi hj => ?_, fun i fd hi => ?_, fun i fd h3 hi => ?_, fun b hb => ?_, ?_,
    fun b hb hm => ?_, fun b hb hm => ?_, fun fd hfd => ?_, ?_⟩
  · obtain ⟨fd, hfd⟩ := h.attached.std i hi
    exact ⟨fd, (hslots i fd).mpr (Or.inr hfd)⟩
  · rcases (hslots i fd).mp hi with ⟨rfl, rfl⟩ | hi
    · rcases (hslots j _).mp hj with ⟨rfl, -⟩ | hj
      · rfl
      · exact absurd (mem_table_iff.mpr ⟨j, hj⟩) h.next_notMem
    · rcases (hslots j fd).mp hj with ⟨rfl, rfl⟩ | hj
      · exact absurd (mem_table_iff.mpr ⟨i, hi⟩) h.next_notMem
      · exact h.slots i j fd hi hj
  · simp only [hnext]
    rcases (hslots i fd).mp hi with ⟨-, rfl⟩ | hi
    · exact Nat.lt_succ_self _
    · exact Nat.lt_succ_of_lt (h.allocated i fd hi)
  · rcases (hslots i fd).mp hi with ⟨-, rfl⟩ | hi
    · exact ⟨a, List.mem_cons_self .., ha⟩
    · obtain ⟨b, hb, hbe⟩ := h.user i fd h3 hi
      exact ⟨b, List.mem_cons_of_mem _ hb, hbe⟩
  · simp only [hnext]
    rcases List.mem_cons.mp hb with rfl | hb
    · omega
    · exact Nat.lt_succ_of_lt (h.addedAllocated b hb)
  · rw [List.map_cons, List.nodup_cons, ha]
    refine ⟨fun hm => ?_, h.addedOnce⟩
    obtain ⟨b, hb, hbe⟩ := List.mem_map.mp hm
    exact hold b hb hbe
  · simp only [hclosed]
    rcases List.mem_cons.mp hb with rfl | hb
    · rw [ha]
      exact ⟨hown, hnew⟩
    · rw [hmem _ (hold b hb)]
      exact h.held b hb (((hin _).mp hm).resolve_left (hold b hb))
  · simp only [hclosed]
    rcases List.mem_cons.mp hb with rfl | hb
    · exact absurd ((hin _).mpr (Or.inl ha)) hm
    · exact h.removed b hb fun hm' => hm ((hin _).mpr (Or.inr hm'))
  · obtain ⟨b, hb, hbe⟩ := h.closedAdded fd (hclosed ▸ hfd)
    exact ⟨b, List.mem_cons_of_mem _ hb, hbe⟩
  · simp only [hclosed]
    exact h.closedOnce

theorem FtRun.Ok.remove (h : t.Ok) {n : Nat} (hn : 3 ≤ n) (hs : t.ft.filedescriptor[n]? = some (some fd)) :
    FtRun.Ok { t with ft := (t.ft.drop fd).fill n none } := by
  obtain ⟨a, ha, hafd⟩ := h.user n fd hn hs
  obtain ⟨hown, hopen⟩ := h.held a ha (hafd ▸ mem_table_iff.mpr ⟨n, hs⟩)
  rw [hafd] at hown hopen
  have hslots : ∀ (i d : Nat), ((t.ft.drop fd).fill n none).filedescriptor[i]? = some (some d) ↔
      i ≠ n ∧ t.ft.filedescriptor[i]? = some (some d) := by
    intro i d
    by_cases hi : n = i
    · subst hi
      simp [Filetable.fill, Filetable.drop, List.getElem?_set]
    · have hi' : ¬ i = n := fun h' => hi h'.symm
      simp [Filetable.fill, Filetable.drop, hi, hi']
  have hin : ∀ d, some d ∈ ((t.ft.drop fd).fill n none).filedescriptor ↔ d ≠ fd ∧ some d ∈ t.ft.filedescriptor := by
    intro d
    rw [mem_table_iff, mem_table_iff]
    constructor
    · rintro ⟨i, hi⟩
      obtain ⟨hne, hi'⟩ := (hslots i d).mp hi
      refine ⟨fun hd => ?_, i, hi'⟩
      exact hne (h.slots i n d hi' (hd ▸ hs))
    · rintro ⟨hne, i, hi⟩
      refine ⟨i, (hslots i d).mpr ⟨?_, hi⟩⟩
      rintro rfl
      rw [hs] at hi
      exact hne (by simpa using hi.symm)
  have hmemory : ∀ d, d ≠ fd → ((t.ft.drop fd).fill n none).memory d = t.ft.memory d := fun d hd =>
    Function.update_of_ne hd _ _
  have hclosed : ∀ d, d ∈ ((t.ft.drop fd).fill n none).closed ↔ (d = fd ∧ a.owners = 1) ∨ d ∈ t.ft.closed := by
    intro d
    simp only [Filetable.fill, Filetable.drop, hown]
    by_cases h1 : a.owners = 1
    · rw [if_pos (by omega)]
      simp [h1]
    · rw [if_neg (by omega)]
      simp [h1]
  have hsame : ∀ b ∈ t.added, b.fd = fd → b = a := fun b hb hbe =>
    List.inj_on_of_nodup_map h.addedOnce hb ha (hbe.trans hafd.symm)
  refine ⟨⟨fun i hi => ?_⟩, fun i j d hi hj => ?_, fun i d hi => ?_, fun i d h3 hi => ?_, h.addedAllocated, h.addedOnce,
    fun b hb hm => ?_, fun b hb hm => ?_, fun d hd => ?_, ?_⟩
  · obtain ⟨d, hd⟩ := h.attached.std i hi
    exact ⟨d, (hslots i d).mpr ⟨by omega, hd⟩⟩
  · exact h.slots i j d ((hslots i d).mp hi).2 ((hslots j d).mp hj).2
  · exact h.allocated i d ((hslots i d).mp hi).2
  · exact h.user i d h3 ((hslots i d).mp hi).2
  · obtain ⟨hne, hm⟩ := (hin _).mp hm
    obtain ⟨hb₁, hb₂⟩ := h.held b hb hm
    rw [hmemory _ hne]
    refine ⟨hb₁, fun hc => ?_⟩
    rcases (hclosed _).mp hc with ⟨he, -⟩ | hc
    · exact hne he
    · exact hb₂ hc
  · by_cases hbe : b.fd = fd
    · obtain rfl := hsame b hb hbe
      rw [hbe]
      refine (hclosed fd).trans ⟨?_, fun h1 => Or.inl ⟨rfl, h1⟩⟩
      rintro (⟨-, h1⟩ | hc)
      · exact h1
      · exact absurd hc hopen
    · have hm' : some b.fd ∉ t.ft.filedescriptor := fun hm' => hm ((hin _).mpr ⟨hbe, hm'⟩)
      rw [← h.removed b hb hm']
      refine (hclosed _).trans ⟨?_, Or.inr⟩
      rintro (⟨he, -⟩ | hc)
      · exact absurd he hbe
      · exact hc
  · rcases (hclosed d).mp hd with ⟨rfl, -⟩ | hd
    · exact ⟨a, ha, hafd⟩
    · exact h.closedAdded d hd
  · simp only [Filetable.fill, Filetable.drop]
    split
    · exact List.nodup_cons.mpr ⟨hopen, h.closedOnce⟩
    · exact h.closedOnce

/-! ## Runs -/

theorem FtRun.Ok.kmalloc (h : t.Ok) (fd : Filedescriptor) : FtRun.Ok { t with ft := (ftKmalloc fd t.ft).2 } := by
  refine { h with
    attached := ⟨h.attached.std⟩
    allocated := fun i d hi => Nat.lt_succ_of_lt (h.allocated i d hi)
    addedAllocated := fun a ha => Nat.lt_succ_of_lt (h.addedAllocated a ha)
    held := fun a ha hm => ?_ }
  have hne : a.fd ≠ t.ft.next := Nat.ne_of_lt (h.addedAllocated a ha)
  simp only [ftKmalloc, Function.update_of_ne hne]
  exact h.held a ha hm

theorem FtRun.Ok.step {a : FtOp} (h : t.Ok) (ha : a.callable t) : ∃ t', ftStep t a = .ok t' ∧ t'.Ok := by
  cases a with
  | remove fti =>
    obtain ⟨h3, fd, hs⟩ := ha
    refine ⟨{ t with ft := (t.ft.drop fd).fill fti.toNat none }, ?_, h.remove (by omega) hs⟩
    simp only [ftStep, ftRemove_eq h.attached (by omega) hs, ok_bind]
  | add fd =>
    have hsize : 3 ≤ ftArraySize t.ft := h.attached.size
    have hatt : (ftKmalloc fd t.ft).2.Attached := (h.kmalloc fd).attached
    have hnew : (ftKmalloc fd t.ft).1 = t.ft.next := rfl
    simp only [ftStep, hnew]
    rcases ftAdd_cases hatt t.ft.next with he | ⟨n, hn, hslot, he⟩ | ⟨hn, hfull, he⟩
    · rw [he, ok_bind]
      exact ⟨_, rfl, h.kmalloc fd⟩
    · obtain ⟨hns, -⟩ := List.getElem?_eq_some_iff.mp hslot
      have h3 : 3 ≤ n := by
        by_contra hlt
        obtain ⟨d, hd⟩ := hatt.std n (by omega)
        rw [hslot] at hd
        cases hd
      have hne : ¬ (n : Int) = -1 := by omega
      have happ : decide (none ∉ t.ft.filedescriptor) = false :=
        decide_eq_false fun hnone => hnone (List.mem_of_getElem? hslot)
      rw [he, ok_bind]
      refine ⟨_, rfl, ?_⟩
      simp only [if_neg hne, happ]
      refine h.add h3 rfl rfl rfl (fun i d => ?_) (fun d hd => Function.update_of_ne hd _ _) ?_
      · by_cases hi : n = i
        · subst hi
          simp only [Filetable.fill, List.getElem?_set_self hns, Option.some.injEq, true_and]
          constructor
          · intro h'
            exact Or.inl h'.symm
          · rintro (rfl | h')
            · rfl
            · rw [show t.ft.filedescriptor[n]? = some none from hslot] at h'
              cases h'
        · have hi' : ¬ i = n := fun h' => hi h'.symm
          simp [Filetable.fill, ftKmalloc, hi, hi']
      · simp [Filetable.fill, ftKmalloc, Added.owners]
    · have hne : ¬ ((ftArraySize (ftKmalloc fd t.ft).2 : Nat) : Int) = -1 := by omega
      have happ : decide (none ∉ t.ft.filedescriptor) = true := decide_eq_true hfull
      rw [he, ok_bind]
      refine ⟨_, rfl, ?_⟩
      simp only [if_neg hne, happ]
      refine h.add hsize rfl rfl rfl (fun i d => ?_) (fun d hd => ?_) ?_
      · simp only [Filetable.append, ftKmalloc]
        rcases Nat.lt_trichotomy i (ftArraySize t.ft) with hi | rfl | hi
        · rw [List.getElem?_append_left hi]
          have : ¬ i = ftArraySize t.ft := by omega
          simp [this]
        · have hnone : t.ft.filedescriptor[ftArraySize t.ft]? = none := List.getElem?_eq_none (Nat.le_refl _)
          simp [ftArraySize, eq_comm]
        · have hnone : t.ft.filedescriptor[i]? = none := List.getElem?_eq_none (Nat.le_of_lt hi)
          have hnone' : (t.ft.filedescriptor ++ [some t.ft.next])[i]? = none := by
            apply List.getElem?_eq_none
            rw [List.length_append]
            exact hi
          have : ¬ i = ftArraySize t.ft := by omega
          simp [hnone, hnone', this]
      · simp [Filetable.append, ftKmalloc, Function.update_of_ne hd]
      · simp [Filetable.append, ftKmalloc, Added.owners]

theorem FtRun.Ok.reach {console : Nat} {ok : FtRun → FtOp → Prop} (hok : ∀ t a, ok t a → a.callable t)
    (h : Reach ftStep ok (FtRun.start console) t) : t.Ok := by
  refine h.invariant (I := FtRun.Ok) (FtRun.Ok.start console) (fun s a s' hi ha hs => ?_)
  obtain ⟨s'', he, hs''⟩ := hi.step (hok s a ha)
  rw [he] at hs
  exact Except.ok.inj hs ▸ hs''

/-- In every run, whatever `numOwners` each new descriptor comes with: a
descriptor in the table is open; one whose slot was removed is closed exactly
if it came with 0 into an appended slot or with 1 into an empty one. -/
theorem closed_when_removed {console : Nat}
    (h : Reach ftStep (fun t a => a.callable t) (FtRun.start console) t) :
    (∀ a ∈ t.added, some a.fd ∈ t.ft.filedescriptor → a.fd ∉ t.ft.closed) ∧
      (∀ a ∈ t.added, some a.fd ∉ t.ft.filedescriptor →
        (a.fd ∈ t.ft.closed ↔ a.numOwners = if a.appended then 0 else 1)) ∧
      t.ft.closed.Nodup ∧ (∀ fd ∈ t.ft.closed, ∃ a ∈ t.added, a.fd = fd) ∧
      (∀ a, a.callable t → ∃ t', ftStep t a = .ok t') ∧
      ∀ fd, ftAdd t.ft fd = .ok (-1, t.ft) ∨
        ∃ (n : Nat) (ft' : Filetable), ftAdd t.ft fd = .ok ((n : Int), ft') ∧ n < openMax ∧
          (t.ft.filedescriptor[n]? = some none ∨ n = ftArraySize t.ft) ∧
          ft'.filedescriptor[n]? = some (some fd) := by
  have hok : t.Ok := FtRun.Ok.reach (fun _ _ ha => ha) h
  refine ⟨fun a ha hm => (hok.held a ha hm).2, fun a ha hm => ?_, hok.closedOnce, hok.closedAdded, fun a ha => ?_,
    fun fd => ?_⟩
  · rw [hok.removed a ha hm, Added.owners]
    split <;> omega
  · obtain ⟨t', he, -⟩ := hok.step ha
    exact ⟨t', he⟩
  · rcases ftAdd_cases hok.attached fd with he | ⟨n, hn, hslot, he⟩ | ⟨hn, -, he⟩
    · exact Or.inl he
    · obtain ⟨hns, -⟩ := List.getElem?_eq_some_iff.mp hslot
      exact Or.inr ⟨n, _, he, hn, Or.inl hslot, List.getElem?_set_self hns⟩
    · refine Or.inr ⟨ftArraySize t.ft, _, he, hn, Or.inr rfl, ?_⟩
      simp [Filetable.append, ftArraySize]

def ftRan (l : List FtOp) : FtRun :=
  match l.foldlM ftStep (FtRun.start 0) with
  | .ok t => t
  | .error _ => FtRun.start 0

def newFd (numOwners : Int) : Filedescriptor := { mode := .rdwr, numOwners := numOwners, offset := 0, fdvnode := 7 }

theorem closed_when_removed_once : 4 ∈ (ftRan [.add (newFd 0), .remove 3]).ft.closed := by
  have h₁ : Reach ftStep (fun t a => a.callable t) (FtRun.start 0) (ftRan [.add (newFd 0)]) :=
    Reach.refl.tail (a := .add (newFd 0)) trivial rfl
  have h₂ : Reach ftStep (fun t a => a.callable t) (FtRun.start 0) (ftRan [.add (newFd 0), .remove 3]) :=
    h₁.tail (a := .remove 3) ⟨by decide, 4, rfl⟩ rfl
  exact ((closed_when_removed h₂).2.1 { fd := 4, numOwners := 0, appended := true } (List.mem_cons_self ..)
    (by decide)).mpr rfl

theorem removed_but_open (v : Int) : ∃ t,
    Reach ftStep (fun t a => a.callable t ∧ ∀ fd, a = .add fd → fd.numOwners = v) (FtRun.start 0) t ∧
      ∃ a ∈ t.added, some a.fd ∉ t.ft.filedescriptor ∧ a.fd ∉ t.ft.closed := by
  have hadd : ∀ t : FtRun, (FtOp.add (newFd v)).callable t ∧
      ∀ fd, FtOp.add (newFd v) = .add fd → fd.numOwners = v := by
    intro t
    refine ⟨trivial, fun fd hfd => ?_⟩
    cases hfd
    rfl
  let ok : FtRun → FtOp → Prop := fun t a => a.callable t ∧ ∀ fd, a = .add fd → fd.numOwners = v
  have h₁ : Reach ftStep ok (FtRun.start 0) (ftRan [.add (newFd v)]) :=
    Reach.refl.tail (a := .add (newFd v)) (hadd _) rfl
  have h₂ : Reach ftStep ok (FtRun.start 0) (ftRan [.add (newFd v), .remove 3]) :=
    h₁.tail (a := .remove 3) ⟨⟨by decide, 4, rfl⟩, nofun⟩ rfl
  by_cases hv : v = 0
  · -- the appended descriptor is closed, the one that takes its slot is not
    have h₃ : Reach ftStep ok (FtRun.start 0) (ftRan [.add (newFd v), .remove 3, .add (newFd v)]) :=
      h₂.tail (a := .add (newFd v)) (hadd _) rfl
    have h₄ : Reach ftStep ok (FtRun.start 0) (ftRan [.add (newFd v), .remove 3, .add (newFd v), .remove 3]) :=
      h₃.tail (a := .remove 3) ⟨⟨by decide, 5, rfl⟩, nofun⟩ rfl
    have hgone : some 5 ∉ (ftRan [.add (newFd v), .remove 3, .add (newFd v), .remove 3]).ft.filedescriptor := by
      change some 5 ∉ [some 1, some 2, some 3, none]
      decide
    have hiff := (FtRun.Ok.reach (fun _ _ ha => ha.1) h₄).removed { fd := 5, numOwners := v, appended := false }
      (List.mem_cons_self ..) hgone
    refine ⟨_, h₄, { fd := 5, numOwners := v, appended := false }, List.mem_cons_self .., hgone, fun hc => ?_⟩
    have hone : v = 1 := hiff.mp hc
    omega
  · have hgone : some 4 ∉ (ftRan [.add (newFd v), .remove 3]).ft.filedescriptor := by
      change some 4 ∉ [some 1, some 2, some 3, none]
      decide
    have hiff := (FtRun.Ok.reach (fun _ _ ha => ha.1) h₂).removed { fd := 4, numOwners := v, appended := true }
      (List.mem_cons_self ..) hgone
    refine ⟨_, h₂, { fd := 4, numOwners := v, appended := true }, List.mem_cons_self .., hgone, fun hc => ?_⟩
    have hone : v + 1 = 1 := hiff.mp hc
    omega

theorem no_initial_numOwners : ¬ ∃ v : Int, ∀ t,
    Reach ftStep (fun t a => a.callable t ∧ ∀ fd, a = .add fd → fd.numOwners = v) (FtRun.start 0) t →
      ∀ a ∈ t.added, some a.fd ∉ t.ft.filedescriptor → a.fd ∈ t.ft.closed := by
  intro ⟨v, h⟩
  obtain ⟨t, ht, a, ha, hgone, hopen⟩ := removed_but_open v
  exact hopen (h t ht a ha hgone)

end Os161
