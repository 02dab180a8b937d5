import Os161.Ftdestroy
import Os161.LookupSound
import Os161.FiletableSound

/-!
# What a teardown leaves

The loop of `ft_destroy` gives up one owner for each slot it meets, as long
as no standard slot is empty. At an empty one the three streams are opened
again, over what the other two slots hold, and if that fails the table is
gone before the loop goes on.
-/

namespace Os161

open Outcome

variable {ft ft' : Filetable} {s s' : FtDown} {a d i j m fd : Nat} {o : Nat → StdResult}
  {attach : FtDown → Except DownFault (Bool × FtDown)} {destroy : FtDown → Except DownFault FtDown}

/-! ## Slots and owners -/

def Filetable.owned (ft : Filetable) (m fd : Nat) : Nat := (ft.filedescriptor.take m).count (some fd)

theorem owned_succ : ft.owned (m + 1) fd =
    ft.owned m fd + if ft.filedescriptor[m]? = some (some fd) then 1 else 0 := by
  unfold Filetable.owned
  rw [List.take_add_one, List.count_append]
  cases hslot : ft.filedescriptor[m]? with
  | none => simp
  | some slot => by_cases he : slot = some fd <;> simp [he]

theorem owned_congr (hsame : ∀ i < m, ft'.filedescriptor[i]? = ft.filedescriptor[i]?) :
    ft'.owned m fd = ft.owned m fd := by
  induction m with
  | zero => simp [Filetable.owned]
  | succ m ih =>
    rw [owned_succ, owned_succ, ih fun i hi => hsame i (by omega), hsame m (by omega)]

theorem owned_mono (ham : a ≤ m) : ft.owned a fd ≤ ft.owned m fd := by
  induction m, ham using Nat.le_induction with
  | base => exact Nat.le_refl _
  | succ m _ ih => rw [owned_succ]; omega

theorem owned_pos (hi : i < m) (hslot : ft.filedescriptor[i]? = some (some fd)) : 0 < ft.owned m fd := by
  have hle : ft.owned (i + 1) fd ≤ ft.owned m fd := owned_mono hi
  rw [owned_succ, if_pos hslot] at hle
  omega

theorem owned_zero (hno : ∀ i < m, ft.filedescriptor[i]? ≠ some (some fd)) : ft.owned m fd = 0 := by
  induction m with
  | zero => simp [Filetable.owned]
  | succ m ih => rw [owned_succ, if_neg (hno m (by omega)), ih fun i hi => hno i (by omega)]

theorem owned_all : ft.owned (ftArraySize ft) fd = ft.filedescriptor.count (some fd) := by
  rw [Filetable.owned, ftArraySize, List.take_length]

def Filetable.release (ft : Filetable) (i fd : Nat) : Filetable := (ft.drop fd).fill i none

theorem release_slots (i j fd : Nat) : (ft.release i fd).filedescriptor[j]? =
    if j = i ∧ i < ftArraySize ft then some none else ft.filedescriptor[j]? := by
  simp only [Filetable.release, Filetable.fill, Filetable.drop, List.getElem?_set, ftArraySize]
  by_cases hij : i = j
  · subst hij
    by_cases hlt : i < ft.filedescriptor.length
    · simp [hlt]
    · simp [hlt]
  · simp [hij, Ne.symm hij]

theorem release_owners (i fd fd' : Nat) : ((ft.release i fd).memory fd').numOwners =
    (ft.memory fd').numOwners - if fd' = fd then 1 else 0 := by
  by_cases he : fd' = fd
  · subst he; simp [Filetable.release, Filetable.fill, Filetable.drop]
  · simp [Filetable.release, Filetable.fill, Filetable.drop, he]

theorem release_closed (i fd fd' : Nat) : fd' ∈ (ft.release i fd).closed ↔
    fd' ∈ ft.closed ∨ (fd' = fd ∧ (ft.memory fd).numOwners = 1) := by
  simp only [Filetable.release, Filetable.fill, Filetable.drop]
  by_cases h1 : (ft.memory fd).numOwners = 1
  · rw [if_pos (by omega), List.mem_cons]
    tauto
  · rw [if_neg (by omega)]
    tauto

/-! ## One slot -/

section
variable (hlive : s.freed = 0)
include hlive

theorem remove_none (h3 : 3 ≤ i) (hslot : s.ft.filedescriptor[i]? = some none) : s.remove attach i = .ok s := by
  obtain ⟨hlt, -⟩ := List.getElem?_eq_some_iff.mp hslot
  unfold FtDown.remove FtDown.get FtDown.live
  simp only [if_pos hlive, ok_bind, if_neg (Nat.not_lt.mpr h3), ftArraySize, if_neg (Nat.not_le.mpr hlt), ftArrayGetguy,
    hslot, FtDown.lift]

theorem get_some (hslot : s.ft.filedescriptor[i]? = some (some fd)) : s.get attach i = .ok (some fd, s) := by
  obtain ⟨hlt, -⟩ := List.getElem?_eq_some_iff.mp hslot
  unfold FtDown.get FtDown.live
  by_cases h3 : i < 3
  · simp only [if_pos hlive, ok_bind, if_pos h3, ftArraySize, if_neg (Nat.not_le.mpr hlt), ftArrayGetguy, hslot,
      FtDown.lift]
  · simp only [if_pos hlive, ok_bind, if_neg h3, ftArraySize, if_neg (Nat.not_le.mpr hlt), ftArrayGetguy, hslot,
      FtDown.lift]

theorem remove_some (hslot : s.ft.filedescriptor[i]? = some (some fd)) : s.remove attach i =
    if fd ∈ s.ft.closed then .error .freedDescriptor else .ok { s with ft := s.ft.release i fd } := by
  obtain ⟨hlt, -⟩ := List.getElem?_eq_some_iff.mp hslot
  unfold FtDown.remove
  rw [get_some hlive hslot, ok_bind]
  simp only [ftArraySetguy, ftArraySize, hlt, if_true, FtDown.lift, ok_bind]
  rfl

theorem remove_std (h3 : i < 3) (hslot : s.ft.filedescriptor[i]? = some none)
    (hatt : ∀ r, attach s = .ok r → r.2.freed ≠ 0 ∨ ∃ fd, r.2.ft.filedescriptor[i]? = some (some fd)) :
    s.remove attach i = attach s >>= fun r => r.2.remove attach i := by
  cases hr : attach s with
  | error e =>
    unfold FtDown.remove FtDown.get FtDown.live
    simp only [if_pos hlive, ok_bind, if_pos h3, ftArrayGetguy, hslot, FtDown.lift, hr]
    rfl
  | ok r =>
    rw [ok_bind]
    unfold FtDown.remove
    congr 1
    have hget : s.get attach i = r.2.live >>= fun ft =>
        if ftArraySize ft ≤ i then .ok (none, r.2)
        else FtDown.lift (ftArrayGetguy ft i) >>= fun ret => .ok (ret, r.2) := by
      unfold FtDown.get FtDown.live
      simp only [if_pos hlive, ok_bind, if_pos h3, ftArrayGetguy, hslot, FtDown.lift, hr]
    rw [hget]
    by_cases hfree : r.2.freed = 0
    · obtain ⟨fd, hfd⟩ := (hatt r hr).resolve_left (not_not.mpr hfree)
      obtain ⟨hlt, -⟩ := List.getElem?_eq_some_iff.mp hfd
      rw [get_some hfree hfd]
      simp only [FtDown.live, if_pos hfree, ok_bind, ftArraySize, if_neg (Nat.not_le.mpr hlt), ftArrayGetguy, hfd,
        FtDown.lift]
    · unfold FtDown.get
      simp only [FtDown.live, if_neg hfree]
      rfl

end

/-! ## A stretch of the loop -/

def Filetable.Lasts (ft : Filetable) (a m : Nat) : Prop :=
  ∀ fd, ft.owned a fd < ft.owned m fd → fd ∉ ft.closed ∧
    ((ft.memory fd).numOwners ≤ 0 ∨ (ft.owned m fd : Int) - ft.owned a fd ≤ (ft.memory fd).numOwners)

structure Swept (ft : Filetable) (a m : Nat) (ft' : Filetable) : Prop where
  slots : ∀ i, ft'.filedescriptor[i]? = if a ≤ i ∧ i < m then some none else ft.filedescriptor[i]?
  next : ft'.next = ft.next
  owners : ∀ fd, (ft'.memory fd).numOwners = (ft.memory fd).numOwners - ((ft.owned m fd : Int) - ft.owned a fd)
  closed : ∀ fd, fd ∈ ft'.closed ↔ fd ∈ ft.closed ∨
    (1 ≤ (ft.memory fd).numOwners ∧ (ft.memory fd).numOwners ≤ (ft.owned m fd : Int) - ft.owned a fd)

theorem Swept.refl : Swept ft a a ft where
  slots i := by rw [if_neg (by omega)]
  next := rfl
  owners fd := by omega
  closed fd := by
    refine ⟨Or.inl, fun h => h.resolve_right ?_⟩
    omega

theorem Swept.empty (h : Swept ft a m ft') (hslot : ft.filedescriptor[m]? = some none) : Swept ft a (m + 1) ft' := by
  have hown : ∀ fd, ft.owned (m + 1) fd = ft.owned m fd := fun fd => by rw [owned_succ, hslot]; simp
  refine ⟨fun i => ?_, h.next, fun fd => ?_, fun fd => ?_⟩
  · rw [h.slots]
    by_cases him : i = m
    · subst him
      rw [if_neg (by omega), hslot]
      split <;> rfl
    · by_cases hin : a ≤ i ∧ i < m
      · rw [if_pos hin, if_pos (by omega)]
      · rw [if_neg hin, if_neg (by omega)]
  · rw [h.owners, hown]
  · rw [h.closed, hown]

section
variable (hslot : ft.filedescriptor[m]? = some (some fd)) (ham : a ≤ m)
include hslot ham

omit hslot ham in
theorem release_owned (hjm : j ≤ m) (fd' : Nat) : (ft.release m fd).owned j fd' = ft.owned j fd' := by
  apply owned_congr
  intro i hi
  rw [release_slots, if_neg (by omega)]

theorem lasts_release (hfd : fd ∉ ft.closed) : (ft.release m fd).Lasts a m ↔ ft.Lasts a (m + 1) := by
  refine forall_congr' fun fd' => ?_
  rw [release_owned ham, release_owned (Nat.le_refl m), release_owners, release_closed, owned_succ, hslot]
  have hmono : ft.owned a fd' ≤ ft.owned m fd' := owned_mono ham
  by_cases he : fd' = fd
  · subst he
    simp only [if_true, hfd, false_or, true_and, not_false_eq_true]
    omega
  · have hne : some (some fd) ≠ some (some fd') := fun h => he (Option.some.inj (Option.some.inj h)).symm
    simp only [if_neg hne, he, if_false, false_and, or_false, Nat.add_zero, Int.sub_zero]

theorem Swept.release (h : Swept (ft.release m fd) a m ft') : Swept ft a (m + 1) ft' := by
  obtain ⟨hlt, -⟩ := List.getElem?_eq_some_iff.mp hslot
  have hown : ∀ fd', ft.owned (m + 1) fd' = ft.owned m fd' + if fd' = fd then 1 else 0 := by
    intro fd'
    rw [owned_succ, hslot]
    simp only [Option.some.injEq, eq_comm]
  refine ⟨fun i => ?_, h.next, fun fd' => ?_, fun fd' => ?_⟩
  · rw [h.slots, release_slots]
    by_cases him : i = m
    · subst him
      rw [if_neg (by omega), if_pos ⟨rfl, hlt⟩, if_pos (by omega)]
    · by_cases hin : a ≤ i ∧ i < m
      · rw [if_pos hin, if_pos (by omega)]
      · rw [if_neg hin, if_neg (by omega), if_neg (by omega)]
  · rw [h.owners, release_owned ham, release_owned (Nat.le_refl m), release_owners, hown]
    split <;> omega
  · rw [h.closed, release_owned ham, release_owned (Nat.le_refl m), release_owners, release_closed, hown]
    have hmono : ft.owned a fd' ≤ ft.owned m fd' := owned_mono ham
    by_cases he : fd' = fd
    · subst he
      simp only [if_true, true_and]
      rw [or_assoc]
      refine or_congr_right ?_
      omega
    · simp only [he, if_false, false_and, or_false, Nat.add_zero, Int.sub_zero]

end

theorem removeLoop_succ (m : Nat) (s : FtDown) : FtDown.removeLoop attach (m + 1) s =
    s.remove attach m >>= FtDown.removeLoop attach m := rfl

theorem removeLoop_stretch (attach : FtDown → Except DownFault (Bool × FtDown)) (hlive : s.freed = 0)
    (hm : a + d ≤ ftArraySize s.ft)
    (hstd : ∀ i, a ≤ i → i < a + d → i < 3 → s.ft.filedescriptor[i]? ≠ some none) :
    (s.ft.Lasts a (a + d) ∧ ∃ ft', Swept s.ft a (a + d) ft' ∧
      FtDown.removeLoop attach (a + d) s = FtDown.removeLoop attach a { s with ft := ft' }) ∨
    (¬ s.ft.Lasts a (a + d) ∧ ∃ e, FtDown.removeLoop attach (a + d) s = .error e) := by
  induction d generalizing s with
  | zero => exact Or.inl ⟨fun fd hfd => absurd hfd (Nat.lt_irrefl _), s.ft, .refl, rfl⟩
  | succ d ih =>
    rw [← Nat.add_assoc] at hm ⊢
    obtain ⟨slot, hslot⟩ : ∃ slot, s.ft.filedescriptor[a + d]? = some slot := ⟨_, List.getElem?_eq_getElem hm⟩
    rw [removeLoop_succ]
    cases slot with
    | none =>
      have h3 : 3 ≤ a + d := Nat.not_lt.mp fun h3 => hstd (a + d) (by omega) (by omega) h3 hslot
      have hlasts : s.ft.Lasts a (a + d + 1) ↔ s.ft.Lasts a (a + d) := by
        unfold Filetable.Lasts
        simp only [owned_succ (m := a + d), hslot]
        simp
      rw [remove_none hlive h3 hslot, ok_bind, hlasts]
      rcases ih hlive (by omega) fun i hai hi => hstd i hai (by omega) with ⟨hl, ft', hsw, heq⟩ | hbad
      · exact Or.inl ⟨hl, ft', hsw.empty hslot, heq⟩
      · exact Or.inr hbad
    | some fd =>
      rw [remove_some hlive hslot]
      by_cases hfd : fd ∈ s.ft.closed
      · rw [if_pos hfd]
        refine Or.inr ⟨fun hl => (hl fd ?_).1 hfd, .freedDescriptor, rfl⟩
        have hmono : s.ft.owned a fd ≤ s.ft.owned (a + d) fd := owned_mono (by omega)
        rw [owned_succ, if_pos hslot]
        omega
      · rw [if_neg hfd, ok_bind, ← lasts_release hslot (Nat.le_add_right a d) hfd]
        have hsize : a + d ≤ ftArraySize (s.ft.release (a + d) fd) := by
          simp only [ftArraySize, Filetable.release, Filetable.fill, Filetable.drop, List.length_set] at hm ⊢
          omega
        have hstd' : ∀ i, a ≤ i → i < a + d → i < 3 → (s.ft.release (a + d) fd).filedescriptor[i]? ≠ some none := by
          intro i hai hid hi3
          rw [release_slots, if_neg (by omega)]
          exact hstd i hai (by omega) hi3
        rcases ih (s := { s with ft := s.ft.release (a + d) fd }) hlive hsize hstd' with ⟨hl, ft', hsw, heq⟩ | hbad
        · exact Or.inl ⟨hl, ft', hsw.release hslot (Nat.le_add_right a d), heq⟩
        · exact Or.inr hbad

/-! ## Opening the streams again -/

def FtDown.opens (s : FtDown) (mode : OpenMode) (i : Nat) : FtDown where
  ft :=
    { s.ft with
      filedescriptor := s.ft.filedescriptor.set i (some s.ft.next)
      memory := Function.update s.ft.memory s.ft.next
        { mode := mode, offset := 0, fdvnode := s.ft.console, numOwners := 1 }
      next := s.ft.next + 1 }
  freed := s.freed
  opened := s.ft.next :: s.opened
  pos := s.pos + 1

def FtDown.opensAll (s : FtDown) : FtDown := ((s.opens .rdonly 0).opens .wronly 1).opens .wronly 2

theorem opens_size (s : FtDown) (mode : OpenMode) (i : Nat) : ftArraySize (s.opens mode i).ft = ftArraySize s.ft :=
  List.length_set

section
variable (hlive : s.freed = 0)
include hlive

theorem attachstd_ok (hi : i < ftArraySize s.ft) (ho : o s.pos = .ok) (mode : OpenMode) :
    s.attachstd o destroy mode i = .ok (true, s.opens mode i) := by
  unfold FtDown.attachstd FtDown.live ftAttachstd
  simp only [ho, if_pos hlive, ok_bind]
  rw [ftSet_eq (by exact hi)]
  rfl

theorem attachstds_ok (destroy : FtDown → Except DownFault FtDown) (hsize : 3 ≤ ftArraySize s.ft)
    (ho : ∀ k < 3, o (s.pos + k) = .ok) : s.attachstds o destroy = .ok (true, s.opensAll) := by
  have h1 : 3 ≤ ftArraySize (s.opens .rdonly 0).ft := by rwa [opens_size]
  have h2 : 3 ≤ ftArraySize ((s.opens .rdonly 0).opens .wronly 1).ft := by rwa [opens_size]
  unfold FtDown.attachstds
  rw [attachstd_ok hlive (by omega) (ho 0 (by decide))]
  simp only [ok_bind, Bool.true_eq_false, if_false]
  rw [attachstd_ok (s := s.opens .rdonly 0) hlive (by omega) (ho 1 (by decide))]
  simp only [ok_bind, Bool.true_eq_false, if_false]
  exact attachstd_ok (s := (s.opens .rdonly 0).opens .wronly 1) hlive (by omega) (ho 2 (by decide)) .wronly

omit hlive in
theorem attachstd_fails (hd : ∀ s s', destroy s = .ok s' → s'.freed ≠ 0) (ho : o s.pos ≠ .ok) (mode : OpenMode) :
    Post (s.attachstd o destroy mode i) (fun r => r.1 = false ∧ r.2.freed ≠ 0) fun _ => True := by
  unfold FtDown.attachstd
  cases hr : o s.pos with
  | ok => exact absurd hr ho
  | noMemory =>
    simp only
    cases hs : destroy { s with pos := s.pos + 1 } with
    | error e => trivial
    | ok s' => exact ⟨rfl, hd _ _ hs⟩
  | noString => trivial
  | openFails => trivial

theorem attachstds_fails (hd : ∀ s s', destroy s = .ok s' → s'.freed ≠ 0) (hsize : 3 ≤ ftArraySize s.ft)
    (ho : ¬ ∀ k < 3, o (s.pos + k) = .ok) : Post (s.attachstds o destroy) (fun r => r.2.freed ≠ 0) fun _ => True := by
  have h1 : 3 ≤ ftArraySize (s.opens .rdonly 0).ft := by rwa [opens_size]
  unfold FtDown.attachstds
  by_cases ho0 : o s.pos = .ok
  · rw [attachstd_ok hlive (by omega) ho0]
    simp only [ok_bind, Bool.true_eq_false, if_false]
    by_cases ho1 : o (s.pos + 1) = .ok
    · rw [attachstd_ok (s := s.opens .rdonly 0) hlive (by omega) ho1]
      simp only [ok_bind, Bool.true_eq_false, if_false]
      have ho2 : o (s.pos + 2) ≠ .ok := by
        intro ho2
        refine ho fun k hk => ?_
        interval_cases k
        · exact ho0
        · exact ho1
        · exact ho2
      exact (attachstd_fails (s := (s.opens .rdonly 0).opens .wronly 1) hd ho2 .wronly).mono
        (fun _ h => h.2) fun _ h => h
    · refine (attachstd_fails (s := s.opens .rdonly 0) hd ho1 .wronly).bind fun r _ hr => ?_
      simp only [hr.1, if_true]
      exact hr.2
  · refine (attachstd_fails hd ho0 .rdonly).bind fun r _ hr => ?_
    simp only [hr.1, if_true]
    exact hr.2

end

theorem opensAll_ft (s : FtDown) : s.opensAll.ft = s.ft.attach := rfl

theorem owned_attach (h : ft.Formed) (hm : m ≤ 3) (fd : Nat) :
    ft.attach.owned m fd = if ft.next ≤ fd ∧ fd < ft.next + m then 1 else 0 := by
  induction m with
  | zero =>
    rw [if_neg (by omega)]
    simp [Filetable.owned]
  | succ m ih =>
    have hslot : ft.attach.filedescriptor[m]? = some (some (ft.next + m)) := attach_std h (by omega)
    rw [owned_succ, ih (by omega), hslot]
    simp only [Option.some.injEq]
    split <;> split <;> split <;> omega

theorem attach_owners (h1 : ft.next ≤ fd) (h2 : fd < ft.next + 3) : (ft.attach.memory fd).numOwners = 1 := by
  simp only [Filetable.attach, Function.update_apply]
  split
  · rfl
  split
  · rfl
  rw [if_pos (by omega)]

/-! ## The whole teardown -/

def Filetable.Owned (ft : Filetable) : Prop :=
  ∀ fd, some fd ∈ ft.filedescriptor →
    fd ∉ ft.closed ∧ (ft.filedescriptor.count (some fd) : Int) ≤ (ft.memory fd).numOwners

/-- What the teardown of the table should leave: each slot's owner given up,
the descriptors closed that nobody else owns, and nothing else open. -/
structure Cleaned (ft : Filetable) (s : FtDown) : Prop where
  freed : s.freed = 1
  released : ∀ fd < ft.next, (s.ft.memory fd).numOwners = (ft.memory fd).numOwners - ft.filedescriptor.count (some fd)
  closed : ∀ fd, some fd ∈ ft.filedescriptor →
    (fd ∈ s.ft.closed ↔ (ft.memory fd).numOwners ≤ ft.filedescriptor.count (some fd))
  others : ∀ fd < ft.next, some fd ∉ ft.filedescriptor → (fd ∈ s.ft.closed ↔ fd ∈ ft.closed)
  opened : ∀ fd ∈ s.opened, fd ∈ s.ft.closed

theorem Filetable.Formed.mem_lt (h : ft.Formed) (hfd : some fd ∈ ft.filedescriptor) : fd < ft.next := by
  obtain ⟨i, hi⟩ := List.mem_iff_getElem?.mp hfd
  exact h.allocated i fd hi

theorem Filetable.Formed.swept (h : ft.Formed) (hsw : Swept ft a m ft') : ft'.Formed := by
  refine ⟨?_, fun i fd hi => ?_⟩
  · have hlt : 2 < ft.filedescriptor.length := h.size
    have hsome : ∃ slot, ft'.filedescriptor[2]? = some slot := by
      rw [hsw.slots]
      split
      · exact ⟨none, rfl⟩
      · exact ⟨_, List.getElem?_eq_getElem hlt⟩
    obtain ⟨slot, hslot⟩ := hsome
    exact (List.getElem?_eq_some_iff.mp hslot).1
  · rw [hsw.slots] at hi
    rw [hsw.next]
    split at hi
    · cases hi
    · exact h.allocated i fd hi

theorem Swept.closed_lt (h : ft.Formed) (hc : ∀ fd ∈ ft.closed, fd < ft.next) (hsw : Swept ft a m ft') :
    ∀ fd ∈ ft'.closed, fd < ft'.next := by
  intro fd hfd
  rw [hsw.next]
  rcases (hsw.closed fd).mp hfd with hin | hin
  · exact hc fd hin
  · have hpos : 0 < (ft.filedescriptor.take m).count (some fd) := by
      show 0 < ft.owned m fd
      omega
    exact h.mem_lt (List.mem_of_mem_take (List.count_pos_iff.mp hpos))

structure Accounted (ft : Filetable) (a : Nat) (ft' : Filetable) : Prop where
  owners : ∀ fd < ft.next, (ft'.memory fd).numOwners =
    (ft.memory fd).numOwners - ((ft.filedescriptor.count (some fd) : Int) - ft.owned a fd)
  closed : ∀ fd < ft.next, fd ∈ ft'.closed ↔ fd ∈ ft.closed ∨ (1 ≤ (ft.memory fd).numOwners ∧
    (ft.memory fd).numOwners ≤ (ft.filedescriptor.count (some fd) : Int) - ft.owned a fd)

theorem cleaned_iff (h : ft.Formed) (hacc : Accounted ft a s.ft) (hl : ft.Lasts a (ftArraySize ft)) (hs : s.freed = 1) :
    Cleaned ft s ↔ (∀ fd < ft.next, ft.owned a fd = 0) ∧ ft.Owned ∧ ∀ fd ∈ s.opened, fd ∈ s.ft.closed := by
  constructor
  · intro hc
    have hzero : ∀ fd < ft.next, ft.owned a fd = 0 := by
      intro fd hfd
      have h1 := hc.released fd hfd
      have h2 := hacc.owners fd hfd
      omega
    refine ⟨hzero, fun fd hfd => ?_, hc.opened⟩
    have hlt : fd < ft.next := h.mem_lt hfd
    have hpos : 0 < ft.filedescriptor.count (some fd) := List.count_pos_iff.mpr hfd
    have hz := hzero fd hlt
    have hlast := hl fd (by rw [owned_all]; omega)
    rw [owned_all, hz] at hlast
    refine ⟨hlast.1, hlast.2.elim (fun hneg => ?_) fun hle => by omega⟩
    -- nobody owned it, so the last slot does not close it
    have hclosed := (hc.closed fd hfd).mpr (by omega)
    rw [hacc.closed fd hlt] at hclosed
    rcases hclosed with hin | hin
    · exact absurd hin hlast.1
    · omega
  · rintro ⟨hzero, how, hopen⟩
    refine ⟨hs, fun fd hfd => ?_, fun fd hfd => ?_, fun fd hfd hno => ?_, hopen⟩
    · rw [hacc.owners fd hfd, hzero fd hfd]
      omega
    · have hlt : fd < ft.next := h.mem_lt hfd
      obtain ⟨hin, hle⟩ := how fd hfd
      have hpos : 0 < ft.filedescriptor.count (some fd) := List.count_pos_iff.mpr hfd
      rw [hacc.closed fd hlt, hzero fd hlt]
      constructor
      · rintro (hc | hc)
        · exact absurd hc hin
        · omega
      · intro hc
        exact Or.inr (by omega)
    · have hcount : ft.filedescriptor.count (some fd) = 0 := List.count_eq_zero.mpr hno
      rw [hacc.closed fd hfd, hcount]
      refine ⟨fun hc => hc.resolve_right ?_, Or.inl⟩
      omega

theorem Filetable.Owned.lasts (h : ft.Owned) (a : Nat) : ft.Lasts a (ftArraySize ft) := by
  intro fd hfd
  rw [owned_all] at hfd ⊢
  obtain ⟨hin, hle⟩ := h fd (List.count_pos_iff.mp (by omega))
  exact ⟨hin, Or.inr (by omega)⟩

theorem destroy_eq (hlive : s.freed = 0) (depth : Nat) : FtDown.destroy o (depth + 1) s =
    FtDown.removeLoop (FtDown.attachstds o (FtDown.destroy o depth)) (ftArraySize s.ft) s >>= fun s =>
      .ok { s with freed := s.freed + 1 } := by
  rw [FtDown.destroy, FtDown.live, if_pos hlive, ok_bind]

theorem destroy_freed {depth : Nat} (h : FtDown.destroy o depth s = .ok s') : s'.freed ≠ 0 := by
  cases depth with
  | zero => cases h
  | succ depth =>
    unfold FtDown.destroy at h
    obtain ⟨ft, -, h⟩ := bind_eq_ok.mp h
    obtain ⟨s₁, -, h⟩ := bind_eq_ok.mp h
    cases h
    exact Nat.succ_ne_zero _

theorem destroy_full (hlive : s.freed = 0) (hfull : StdsFull s.ft) (depth : Nat) :
    (s.ft.Lasts 0 (ftArraySize s.ft) ∧ ∃ ft', Swept s.ft 0 (ftArraySize s.ft) ft' ∧
      FtDown.destroy o (depth + 1) s = .ok { s with ft := ft', freed := 1 }) ∨
    (¬ s.ft.Lasts 0 (ftArraySize s.ft) ∧ ∃ e, FtDown.destroy o (depth + 1) s = .error e) := by
  have hstd : ∀ i, 0 ≤ i → i < 0 + ftArraySize s.ft → i < 3 → s.ft.filedescriptor[i]? ≠ some none := by
    intro i _ _ hi hnone
    obtain ⟨fd, hfd⟩ := hfull i hi
    rw [hnone] at hfd
    cases hfd
  have hloop := removeLoop_stretch (FtDown.attachstds o (FtDown.destroy o depth)) hlive
    (Nat.le_of_eq (Nat.zero_add _)) hstd
  rw [destroy_eq hlive]
  rw [Nat.zero_add] at hloop
  rcases hloop with ⟨hl, ft', hsw, heq⟩ | ⟨hl, e, heq⟩
  · refine Or.inl ⟨hl, ft', hsw, ?_⟩
    rw [heq]
    simp only [FtDown.removeLoop, ok_bind, hlive]
  · exact Or.inr ⟨hl, e, by rw [heq]; rfl⟩

theorem last_empty (h : ft.Formed) (hno : ¬ StdsFull ft) : ∃ j < 3, ft.filedescriptor[j]? = some none ∧
    ∀ i, j < i → i < 3 → ft.filedescriptor[i]? ≠ some none := by
  have hsome : ∀ i < 3, ft.filedescriptor[i]? ≠ some none → ∃ fd, ft.filedescriptor[i]? = some (some fd) := by
    intro i hi hne
    exact (h.std_slot hi).resolve_left hne
  by_cases h2 : ft.filedescriptor[2]? = some none
  · exact ⟨2, by decide, h2, fun i hi hi3 => by omega⟩
  by_cases h1 : ft.filedescriptor[1]? = some none
  · refine ⟨1, by decide, h1, fun i hi hi3 => ?_⟩
    obtain rfl : i = 2 := by omega
    exact h2
  by_cases h0 : ft.filedescriptor[0]? = some none
  · refine ⟨0, by decide, h0, fun i hi hi3 => ?_⟩
    obtain rfl | rfl : i = 1 ∨ i = 2 := by omega
    · exact h1
    · exact h2
  refine absurd (fun i hi => hsome i hi ?_) hno
  interval_cases i
  · exact h0
  · exact h1
  · exact h2

section
variable (h : s.ft.Formed) (hlive : s.freed = 0) (hj : j < 3) (hslot : s.ft.filedescriptor[j]? = some none)
  (habove : ∀ i, j < i → i < 3 → s.ft.filedescriptor[i]? ≠ some none)
include h hlive hj hslot habove

theorem removeLoop_empty (attach : FtDown → Except DownFault (Bool × FtDown)) :
    (s.ft.Lasts (j + 1) (ftArraySize s.ft) ∧ ∃ ft', Swept s.ft (j + 1) (ftArraySize s.ft) ft' ∧
      ft'.filedescriptor[j]? = some none ∧
      FtDown.removeLoop attach (ftArraySize s.ft) s = FtDown.removeLoop attach (j + 1) { s with ft := ft' }) ∨
    (¬ s.ft.Lasts (j + 1) (ftArraySize s.ft) ∧ ∃ e, FtDown.removeLoop attach (ftArraySize s.ft) s = .error e) := by
  have hsize := h.size
  obtain ⟨d, hd⟩ : ∃ d, ftArraySize s.ft = j + 1 + d := ⟨ftArraySize s.ft - (j + 1), by omega⟩
  have hloop := removeLoop_stretch attach (a := j + 1) (d := d) hlive (Nat.le_of_eq hd.symm)
    fun i hi _ hi3 => habove i hi hi3
  rw [← hd] at hloop
  rcases hloop with ⟨hl, ft', hsw, heq⟩ | hbad
  · refine Or.inl ⟨hl, ft', hsw, ?_, heq⟩
    rw [hsw.slots, if_neg (by omega), hslot]
  · exact Or.inr hbad

theorem destroy_fails (ho : ¬ ∀ k < 3, o (s.pos + k) = .ok) (depth : Nat) :
    ¬ ∃ s', FtDown.destroy o depth s = .ok s' := by
  rintro ⟨s', hs'⟩
  cases depth with
  | zero => cases hs'
  | succ depth =>
    rw [destroy_eq hlive] at hs'
    obtain ⟨s₁, hs₁, -⟩ := bind_eq_ok.mp hs'
    rcases removeLoop_empty h hlive hj hslot habove (FtDown.attachstds o (FtDown.destroy o depth)) with
      ⟨-, ft', hsw, hnone, heq⟩ | ⟨-, e, heq⟩
    · have hfail := attachstds_fails (s := { s with ft := ft' }) (o := o) hlive
        (fun t _ (hd : FtDown.destroy o depth t = _) => destroy_freed hd) (h.swept hsw).size ho
      rw [heq, removeLoop_succ, remove_std (s := { s with ft := ft' }) hlive hj hnone
        fun r hr => Or.inl (hfail.ok_of hr)] at hs₁
      obtain ⟨s₂, hs₂, -⟩ := bind_eq_ok.mp hs₁
      obtain ⟨r, hr, hs₂⟩ := bind_eq_ok.mp hs₂
      -- `ft_get` goes on with the table that is gone
      rw [FtDown.remove, FtDown.get, FtDown.live, if_neg (hfail.ok_of hr)] at hs₂
      cases hs₂
    · rw [heq] at hs₁
      cases hs₁

theorem destroy_opens (ho : ∀ k < 3, o (s.pos + k) = .ok) (hc : ∀ fd ∈ s.ft.closed, fd < s.ft.next) (depth : Nat) :
    (s.ft.Lasts (j + 1) (ftArraySize s.ft) ∧ ∃ ft₁ ft₂, Swept s.ft (j + 1) (ftArraySize s.ft) ft₁ ∧
      Swept ft₁.attach 0 (j + 1) ft₂ ∧ FtDown.destroy o (depth + 1) s =
        .ok { ({ s with ft := ft₁ } : FtDown).opensAll with ft := ft₂, freed := 1 }) ∨
    (¬ s.ft.Lasts (j + 1) (ftArraySize s.ft) ∧ ∃ e, FtDown.destroy o (depth + 1) s = .error e) := by
  rw [destroy_eq hlive]
  rcases removeLoop_empty h hlive hj hslot habove (FtDown.attachstds o (FtDown.destroy o depth)) with
    ⟨hl, ft₁, hsw, hnone, heq⟩ | ⟨hl, e, heq⟩
  · have h₁ : ft₁.Formed := h.swept hsw
    have hatt := attachstds_ok (s := { s with ft := ft₁ }) (o := o) hlive (FtDown.destroy o depth) h₁.size ho
    have hstd : ∀ i, 0 ≤ i → i < 0 + (j + 1) → i < 3 → ft₁.attach.filedescriptor[i]? ≠ some none := by
      intro i _ _ hi hno
      rw [attach_std h₁ hi] at hno
      cases hno
    have hlasts : ft₁.attach.Lasts 0 (j + 1) := by
      intro fd hfd
      rw [owned_attach h₁ (by omega)] at hfd ⊢
      rw [owned_attach h₁ (by omega)] at hfd ⊢
      have hin : ft₁.next ≤ fd ∧ fd < ft₁.next + (j + 1) := by
        by_contra hno
        rw [if_neg hno] at hfd
        omega
      refine ⟨fun hmem => ?_, Or.inr ?_⟩
      · have hlt : fd < ft₁.next := hsw.closed_lt h hc fd hmem
        omega
      · rw [if_pos hin, attach_owners hin.1 (by omega)]
        omega
    have hloop := removeLoop_stretch (FtDown.attachstds o (FtDown.destroy o depth)) (a := 0) (d := j + 1)
      (s := ({ s with ft := ft₁ } : FtDown).opensAll) hlive
      (by rw [opensAll_ft]; exact Nat.le_trans (by omega) h₁.attach.size) hstd
    rw [Nat.zero_add] at hloop
    obtain ⟨-, ft₂, hsw₂, heq₂⟩ := hloop.resolve_right fun hbad => hbad.1 hlasts
    refine Or.inl ⟨hl, ft₁, ft₂, hsw, hsw₂, ?_⟩
    have hopen : ∀ r, FtDown.attachstds o (FtDown.destroy o depth) { s with ft := ft₁ } = .ok r →
        r.2.freed ≠ 0 ∨ ∃ fd, r.2.ft.filedescriptor[j]? = some (some fd) := by
      intro r hr
      rw [hatt] at hr
      cases hr
      exact Or.inr ⟨_, attach_std h₁ hj⟩
    rw [heq, removeLoop_succ, remove_std (s := { s with ft := ft₁ }) hlive hj hnone hopen, hatt, ok_bind,
      ← removeLoop_succ, heq₂]
    simp only [FtDown.removeLoop, ok_bind, FtDown.opensAll, FtDown.opens, hlive]
  · exact Or.inr ⟨hl, e, by rw [heq]; rfl⟩

end

theorem accounted_full (hsw : Swept ft 0 (ftArraySize ft) ft') : Accounted ft 0 ft' := by
  refine ⟨fun fd _ => ?_, fun fd _ => ?_⟩
  · rw [hsw.owners, owned_all]
  · rw [hsw.closed, owned_all]

theorem accounted_opens {ft₁ : Filetable} (h : ft.Formed) (hj : j < 3) (hsw : Swept ft (j + 1) (ftArraySize ft) ft₁)
    (hsw' : Swept ft₁.attach 0 (j + 1) ft') : Accounted ft (j + 1) ft' := by
  have h₁ : ft₁.Formed := h.swept hsw
  have hzero : ∀ fd < ft.next, ∀ m ≤ 3, ft₁.attach.owned m fd = 0 := by
    intro fd hfd m hm
    rw [owned_attach h₁ hm, hsw.next, if_neg (by omega)]
  have hmem : ∀ fd < ft.next, ft₁.attach.memory fd = ft₁.memory fd := fun fd hfd => attach_memory (hsw.next ▸ hfd)
  refine ⟨fun fd hfd => ?_, fun fd hfd => ?_⟩
  · rw [hsw'.owners, hzero fd hfd _ (by omega), hzero fd hfd _ (by omega), hmem fd hfd, hsw.owners, owned_all]
    omega
  · have hclosed : ft₁.attach.closed = ft₁.closed := rfl
    rw [hsw'.closed, hzero fd hfd _ (by omega), hzero fd hfd _ (by omega), hclosed, hsw.closed, owned_all]
    refine ⟨fun hc => hc.resolve_right ?_, Or.inl⟩
    omega

theorem opened_closed {ft₁ : Filetable} (h : ft.Formed) (hc : ∀ fd ∈ ft.closed, fd < ft.next) (hj : j < 3)
    (hsw : Swept ft (j + 1) (ftArraySize ft) ft₁) (hsw' : Swept ft₁.attach 0 (j + 1) ft') :
    (∀ fd ∈ [ft₁.next + 2, ft₁.next + 1, ft₁.next], fd ∈ ft'.closed) ↔ j = 2 := by
  have h₁ : ft₁.Formed := h.swept hsw
  have hin : ∀ i < 3, ft₁.next + i ∈ ft'.closed ↔ i < j + 1 := by
    intro i hi
    have hnot : ft₁.next + i ∉ ft₁.attach.closed := by
      intro hmem
      have hlt : ft₁.next + i < ft₁.next := hsw.closed_lt h hc _ hmem
      omega
    rw [hsw'.closed, owned_attach h₁ (by omega), owned_attach h₁ (by omega), attach_owners (by omega) (by omega)]
    simp only [hnot, false_or]
    split <;> split <;> omega
  constructor
  · intro hall
    have h2 := (hin 2 (by decide)).mp (hall (ft₁.next + 2) (by simp))
    omega
  · rintro rfl fd hfd
    simp only [List.mem_cons, List.not_mem_nil, or_false] at hfd
    rcases hfd with rfl | rfl | rfl
    · exact (hin 2 (by decide)).mpr (by decide)
    · exact (hin 1 (by decide)).mpr (by decide)
    · exact (hin 0 (by decide)).mpr (by decide)

theorem stdsEmpty_iff (h : ft.Formed) : StdsEmpty ft ↔ ∀ fd < ft.next, ft.owned 3 fd = 0 := by
  constructor
  · intro he fd _
    refine owned_zero fun i hi hslot => ?_
    rw [he i hi] at hslot
    cases hslot
  · intro hz i hi
    refine (h.std_slot hi).resolve_right ?_
    rintro ⟨fd, hslot⟩
    have hpos := owned_pos hi hslot
    have := hz fd (h.allocated i fd hslot)
    omega

theorem destroy_cleaned (h : ft.Formed) (hc : ∀ fd ∈ ft.closed, fd < ft.next) :
    (∃ depth s, FtDown.destroy o depth (.start ft) = .ok s ∧ Cleaned ft s) ↔
      ft.Owned ∧ (StdsFull ft ∨ (StdsEmpty ft ∧ ∀ k < 3, o k = .ok)) := by
  have hsucc : ∀ {depth s}, FtDown.destroy o depth (.start ft) = .ok s →
      ∃ d, FtDown.destroy o (d + 1) (.start ft) = .ok s := by
    intro depth s hs
    cases depth with
    | zero => cases hs
    | succ d => exact ⟨d, hs⟩
  by_cases hfull : StdsFull ft
  · constructor
    · rintro ⟨depth, s, hs, hclean⟩
      obtain ⟨d, hs⟩ := hsucc hs
      rcases destroy_full (s := .start ft) (o := o) rfl hfull d with ⟨hl, ft', hsw, heq⟩ | ⟨-, e, heq⟩
      · rw [heq] at hs
        cases hs
        have hacc : Accounted ft 0 ft' := accounted_full hsw
        exact ⟨((cleaned_iff h hacc hl rfl).mp hclean).2.1, Or.inl hfull⟩
      · rw [heq] at hs
        cases hs
    · rintro ⟨how, -⟩
      obtain ⟨hl, ft', hsw, heq⟩ := (destroy_full (s := .start ft) (o := o) rfl hfull 0).resolve_right
        fun hbad => hbad.1 (how.lasts 0)
      have hacc : Accounted ft 0 ft' := accounted_full hsw
      refine ⟨1, _, heq, (cleaned_iff h hacc hl rfl).mpr ⟨fun fd _ => ?_, how, nofun⟩⟩
      simp [Filetable.owned]
  · obtain ⟨j, hj, hslot, habove⟩ := last_empty h hfull
    by_cases ho : ∀ k < 3, o k = .ok
    · have ho' : ∀ k < 3, o ((FtDown.start ft).pos + k) = .ok := by
        intro k hk
        rw [show (FtDown.start ft).pos + k = k from Nat.zero_add k]
        exact ho k hk
      have hdestroy := destroy_opens (s := .start ft) (o := o) h rfl hj hslot habove ho' hc
      constructor
      · rintro ⟨depth, s, hs, hclean⟩
        obtain ⟨d, hs⟩ := hsucc hs
        rcases hdestroy d with ⟨hl, ft₁, ft₂, hsw, hsw', heq⟩ | ⟨-, e, heq⟩
        · rw [heq] at hs
          cases hs
          have hacc : Accounted ft (j + 1) ft₂ := accounted_opens h hj hsw hsw'
          obtain ⟨hz, how, hopen⟩ := (cleaned_iff h hacc hl rfl).mp hclean
          obtain rfl := (opened_closed h hc hj hsw hsw').mp hopen
          exact ⟨how, Or.inr ⟨(stdsEmpty_iff h).mpr hz, ho⟩⟩
        · rw [heq] at hs
          cases hs
      · rintro ⟨how, hf | ⟨hempty, -⟩⟩
        · exact absurd hf hfull
        · obtain rfl : j = 2 := by
            by_contra hne
            exact habove 2 (by omega) (by decide) (hempty 2 (by decide))
          obtain ⟨hl, ft₁, ft₂, hsw, hsw', heq⟩ := (hdestroy 0).resolve_right fun hbad => hbad.1 (how.lasts 3)
          have hacc : Accounted ft 3 ft₂ := accounted_opens h hj hsw hsw'
          exact ⟨1, _, heq, (cleaned_iff h hacc hl rfl).mpr
            ⟨(stdsEmpty_iff h).mp hempty, how, (opened_closed h hc hj hsw hsw').mpr rfl⟩⟩
    · constructor
      · rintro ⟨depth, s, hs, -⟩
        refine absurd ⟨s, hs⟩ (destroy_fails (s := .start ft) h rfl hj hslot habove ?_ depth)
        intro ho'
        refine ho fun k hk => ?_
        rw [← ho' k hk]
        exact congrArg o (Nat.zero_add k).symm
      · rintro ⟨-, hf | ⟨-, ho'⟩⟩
        · exact absurd hf hfull
        · exact absurd ho' ho

/-! ## `ft_attachstds` by itself -/

structure FtDown.Ready (s : FtDown) : Prop where
  live : s.freed = 0
  formed : s.ft.Formed
  closed : ∀ fd ∈ s.ft.closed, fd < s.ft.next
  full : StdsFull s.ft
  owned : s.ft.Owned

theorem FtDown.Ready.opens (h : s.Ready) (hi : i < 3) (mode : OpenMode) : (s.opens mode i).Ready := by
  have hlen : i < s.ft.filedescriptor.length := Nat.lt_of_lt_of_le hi h.formed.size
  have hslots : ∀ k, (s.opens mode i).ft.filedescriptor[k]? =
      if k = i then some (some s.ft.next) else s.ft.filedescriptor[k]? := by
    intro k
    simp only [FtDown.opens, List.getElem?_set]
    by_cases hki : i = k
    · subst hki; simp [hlen]
    · simp [hki, Ne.symm hki]
  refine ⟨h.live, ⟨?_, fun k fd hk => ?_⟩, fun fd hfd => Nat.lt_succ_of_lt (h.closed fd hfd), fun k hk => ?_,
    fun fd hfd => ?_⟩
  · rw [opens_size]
    exact h.formed.size
  · rw [hslots] at hk
    show fd < s.ft.next + 1
    by_cases hki : k = i
    · rw [if_pos hki] at hk
      cases hk
      omega
    · rw [if_neg hki] at hk
      exact Nat.lt_succ_of_lt (h.formed.allocated k fd hk)
  · rw [hslots]
    by_cases hki : k = i
    · exact ⟨_, if_pos hki⟩
    · rw [if_neg hki]
      exact h.full k hk
  · have hcount : (s.opens mode i).ft.filedescriptor.count (some fd) ≤
        s.ft.filedescriptor.count (some fd) + if s.ft.next = fd then 1 else 0 := by
      simp only [FtDown.opens]
      rw [List.count_set hlen]
      simp only [beq_iff_eq, Option.some.injEq]
      omega
    by_cases he : s.ft.next = fd
    · subst he
      have hnew : s.ft.filedescriptor.count (some s.ft.next) = 0 :=
        List.count_eq_zero.mpr fun hmem => Nat.lt_irrefl _ (h.formed.mem_lt hmem)
      refine ⟨fun hmem => Nat.lt_irrefl _ (h.closed _ hmem), ?_⟩
      have hone : ((s.opens mode i).ft.memory s.ft.next).numOwners = 1 := by simp [FtDown.opens]
      rw [if_pos rfl, hnew] at hcount
      omega
    · rw [if_neg he] at hcount
      have hmem : some fd ∈ s.ft.filedescriptor := List.count_pos_iff.mp (by
        have := List.count_pos_iff.mpr hfd
        omega)
      obtain ⟨hin, hle⟩ := h.owned fd hmem
      have hsame : (s.opens mode i).ft.memory fd = s.ft.memory fd := Function.update_of_ne (Ne.symm he) _ _
      rw [hsame]
      exact ⟨hin, by omega⟩

theorem FtDown.Ready.attachstd (h : s.Ready) (hi : i < 3) (ho : o s.pos = .ok ∨ o s.pos = .noMemory) (mode : OpenMode) :
    (o s.pos = .ok ∧ s.attachstd o (FtDown.destroy o 1) mode i = .ok (true, s.opens mode i)) ∨
      ∃ s', s.attachstd o (FtDown.destroy o 1) mode i = .ok (false, s') := by
  rcases ho with ho | ho
  · exact Or.inl ⟨ho, attachstd_ok h.live (Nat.lt_of_lt_of_le hi h.formed.size) ho mode⟩
  · obtain ⟨-, ft', -, heq⟩ := (destroy_full (s := { s with pos := s.pos + 1 }) (o := o) h.live h.full 0).resolve_right
      fun hbad => hbad.1 (h.owned.lasts 0)
    refine Or.inr ⟨{ s with pos := s.pos + 1, ft := ft', freed := 1 }, ?_⟩
    unfold FtDown.attachstd
    simp only [ho, heq, ok_bind]

def StopsEarly (o : Nat → StdResult) : Prop :=
  ∀ k < 3, (∀ i < k, o i = .ok) → o k = .ok ∨ o k = .noMemory

theorem attachstds_returns (h : s.Ready) (hpos : s.pos = 0) (ho : StopsEarly o) :
    ∃ r, s.attachstds o (FtDown.destroy o 1) = .ok r := by
  have h₁ := h.opens (i := 0) (by decide) .rdonly
  have h₂ := h₁.opens (i := 1) (by decide) .wronly
  have hpos₁ : (s.opens .rdonly 0).pos = 1 := congrArg (· + 1) hpos
  have hpos₂ : ((s.opens .rdonly 0).opens .wronly 1).pos = 2 := congrArg (· + 1) hpos₁
  unfold FtDown.attachstds
  rcases h.attachstd (o := o) (i := 0) (by decide) (hpos ▸ ho 0 (by decide) nofun) .rdonly with ⟨ho0, heq⟩ | ⟨s', heq⟩
  · rw [heq]
    simp only [ok_bind, Bool.true_eq_false, if_false]
    rw [hpos] at ho0
    rcases h₁.attachstd (o := o) (i := 1) (by decide) (hpos₁ ▸ ho 1 (by decide) fun i hi => by
      obtain rfl : i = 0 := by omega
      exact ho0) .wronly with ⟨ho1, heq₁⟩ | ⟨s', heq₁⟩
    · rw [heq₁]
      simp only [ok_bind, Bool.true_eq_false, if_false]
      rw [hpos₁] at ho1
      rcases h₂.attachstd (o := o) (i := 2) (by decide) (hpos₂ ▸ ho 2 (by decide) fun i hi => by
        obtain rfl | rfl : i = 0 ∨ i = 1 := by omega
        · exact ho0
        · exact ho1) .wronly with ⟨-, heq₂⟩ | ⟨s', heq₂⟩
      · exact ⟨_, heq₂⟩
      · exact ⟨_, heq₂⟩
    · rw [heq₁]
      exact ⟨_, rfl⟩
  · rw [heq]
    exact ⟨_, rfl⟩

theorem attachstd_returns {r : Bool × FtDown} {mode : OpenMode} (h : s.attachstd o destroy mode i = .ok r) :
    o s.pos = .ok ∨ o s.pos = .noMemory := by
  unfold FtDown.attachstd at h
  cases ho : o s.pos with
  | ok => exact Or.inl rfl
  | noMemory => exact Or.inr rfl
  | noString => rw [ho] at h; cases h
  | openFails => rw [ho] at h; cases h

theorem stopsEarly_of_returns {r : Bool × FtDown} (h : ft.Formed)
    (hr : (FtDown.start ft).attachstds o destroy = .ok r) :
    StopsEarly o := by
  have hsize := h.size
  have hsize₁ : 3 ≤ ftArraySize ((FtDown.start ft).opens .rdonly 0).ft := by rwa [opens_size]
  unfold FtDown.attachstds at hr
  obtain ⟨r₀, hr₀, hr⟩ := bind_eq_ok.mp hr
  intro k hk hbefore
  by_cases h0 : k = 0
  · subst h0
    exact attachstd_returns hr₀
  · have ho0 : o 0 = .ok := hbefore 0 (by omega)
    rw [attachstd_ok (s := FtDown.start ft) rfl (Nat.lt_of_lt_of_le (by decide) hsize) ho0] at hr₀
    cases hr₀
    simp only [Bool.true_eq_false, if_false] at hr
    obtain ⟨r₁, hr₁, hr⟩ := bind_eq_ok.mp hr
    by_cases h1 : k = 1
    · subst h1
      exact attachstd_returns hr₁
    · have ho1 : o 1 = .ok := hbefore 1 (by omega)
      rw [attachstd_ok (s := (FtDown.start ft).opens .rdonly 0) rfl (by omega) ho1] at hr₁
      cases hr₁
      simp only [Bool.true_eq_false, if_false] at hr
      obtain rfl : k = 2 := by omega
      exact attachstd_returns hr

/-! ## Teardown -/

/-- `ft_destroy` leaves nothing behind and `ft_attachstds` returns exactly if
every descriptor has an owner for each of its slots, and either the standard
slots are all empty and the streams can all be opened, or they are all
occupied and the first stream that cannot be opened has no descriptor. -/
theorem teardown_cleaned_iff (h : ft.Formed) (hc : ∀ fd ∈ ft.closed, fd < ft.next) (o : Nat → StdResult) :
    ((∃ depth s, FtDown.destroy o depth (.start ft) = .ok s ∧ Cleaned ft s) ∧
      ∃ depth r, FtDown.attachstds o (FtDown.destroy o depth) (.start ft) = .ok r) ↔
    ft.Owned ∧ ((StdsEmpty ft ∧ ∀ k < 3, o k = .ok) ∨ (StdsFull ft ∧ StopsEarly o)) := by
  rw [destroy_cleaned h hc]
  constructor
  · rintro ⟨⟨how, hcase⟩, depth, r, hr⟩
    rcases hcase with hfull | hempty
    · exact ⟨how, Or.inr ⟨hfull, stopsEarly_of_returns h hr⟩⟩
    · exact ⟨how, Or.inl hempty⟩
  · rintro ⟨how, ⟨hempty, ho⟩ | ⟨hfull, ho⟩⟩
    · refine ⟨⟨how, Or.inr ⟨hempty, ho⟩⟩, 0, _, attachstds_ok rfl _ h.size fun k hk => ?_⟩
      rw [show (FtDown.start ft).pos + k = k from Nat.zero_add k]
      exact ho k hk
    · exact ⟨⟨how, Or.inl hfull⟩, 1, attachstds_returns ⟨rfl, h, hc, hfull, how⟩ rfl ho⟩

theorem teardown_cleaned_new :
    ((∃ depth s, FtDown.destroy (fun _ => .ok) depth (.start (ftCreate 0)) = .ok s ∧ Cleaned (ftCreate 0) s) ∧
      ∃ depth r, FtDown.attachstds (fun _ => .ok) (FtDown.destroy (fun _ => .ok) depth)
      (.start (ftCreate 0)) = .ok r) := by
  refine (teardown_cleaned_iff (.create 0) nofun fun _ => .ok).mpr ⟨fun fd hfd => ?_, Or.inl ⟨fun i hi => ?_, ?_⟩⟩
  · simp [ftCreate] at hfd
  · interval_cases i <;> rfl
  · exact fun _ _ => rfl

theorem destroy_new_depth (hft : s.ft = ftCreate 0) (hlive : s.freed = 0) (depth : Nat) :
    FtDown.destroy (fun _ => .noMemory) depth s = .error .depth := by
  induction depth generalizing s with
  | zero => rfl
  | succ depth ih =>
    have hattach : FtDown.attachstds (fun _ => .noMemory) (FtDown.destroy (fun _ => .noMemory) depth) s =
        .error .depth := by
      unfold FtDown.attachstds FtDown.attachstd
      simp only
      rw [ih (s := { s with pos := s.pos + 1 }) hft hlive]
      rfl
    have hslot : s.ft.filedescriptor[2]? = some none := by rw [hft]; rfl
    have hsize : ftArraySize s.ft = 3 := by rw [hft]; rfl
    rw [destroy_eq hlive, hsize, removeLoop_succ, remove_std hlive (by decide) hslot (by rw [hattach]; nofun), hattach]
    rfl

theorem teardown_endless :
    ¬ ∃ depth, FtDown.destroy (fun _ => .noMemory) depth (.start (ftCreate 0)) ≠ .error .depth := by
  rintro ⟨depth, hne⟩
  exact hne (destroy_new_depth rfl rfl depth)

end Os161
