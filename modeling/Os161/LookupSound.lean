import Os161.Lookup
import Os161.Lib.Outcome
import Mathlib.Tactic.IntervalCases

/-!
# What a lookup does to the other descriptors

A lookup of a missing standard stream attaches all three of them, whatever
the other two slots hold.
-/

namespace Os161

open Outcome

variable {ft ft' : Filetable} {fti : Int} {std : Bool} {i fd : Nat}

/-! ## The table after a lookup -/

structure Filetable.Formed (ft : Filetable) : Prop where
  size : 3 ≤ ftArraySize ft
  allocated : ∀ (i fd : Nat), ft.filedescriptor[i]? = some (some fd) → fd < ft.next

theorem Filetable.Formed.create (console : Nat) : (ftCreate console).Formed where
  size := Nat.le_refl 3
  allocated i fd h := by
    have hm := List.mem_of_getElem? h
    simp [ftCreate] at hm

def Filetable.attach (ft : Filetable) : Filetable :=
  let stream (mode : OpenMode) : Filedescriptor := { mode := mode, offset := 0, fdvnode := ft.console, numOwners := 1 }
  { ft with
    filedescriptor := ((ft.filedescriptor.set 0 (some ft.next)).set 1 (some (ft.next + 1))).set 2 (some (ft.next + 2))
    memory := Function.update (Function.update (Function.update ft.memory ft.next (stream .rdonly)) (ft.next + 1)
      (stream .wronly)) (ft.next + 2) (stream .wronly)
    next := ft.next + 3 }

theorem ftSet_eq (h : i < ftArraySize ft) (fd : Nat) :
    ftSet ft fd i = .ok { ft with filedescriptor := ft.filedescriptor.set i (some fd) } := by
  unfold ftSet ftArraySetguy
  rw [if_neg (Nat.not_le.mpr h), if_pos h]

theorem ftAttachstds_eq (h : 3 ≤ ftArraySize ft) : ftAttachstds ft = .ok ft.attach := by
  have hlen : 3 ≤ ft.filedescriptor.length := h
  unfold ftAttachstds ftAttachstd
  rw [ftSet_eq (by simp only [ftKmalloc, ftArraySize]; omega), ok_bind,
    ftSet_eq (by simp only [ftKmalloc, ftArraySize, List.length_set]; omega), ok_bind,
    ftSet_eq (by simp only [ftKmalloc, ftArraySize, List.length_set]; omega)]
  rfl

section
variable (h : ft.Formed)
include h

theorem attach_std (hi : i < 3) : ft.attach.filedescriptor[i]? = some (some (ft.next + i)) := by
  have hsize : 3 ≤ ft.filedescriptor.length := h.size
  have h0 : 0 < ft.filedescriptor.length := by omega
  have h1 : 1 < ft.filedescriptor.length := by omega
  have h2 : 2 < ft.filedescriptor.length := by omega
  interval_cases i <;> simp [Filetable.attach, h0, h1, h2]

omit h in
theorem attach_other (hi : 3 ≤ i) : ft.attach.filedescriptor[i]? = ft.filedescriptor[i]? := by
  simp only [Filetable.attach]
  rw [List.getElem?_set_ne (by omega), List.getElem?_set_ne (by omega), List.getElem?_set_ne (by omega)]

omit h in
theorem attach_memory (hfd : fd < ft.next) : ft.attach.memory fd = ft.memory fd := by
  simp only [Filetable.attach]
  rw [Function.update_of_ne (by omega), Function.update_of_ne (by omega), Function.update_of_ne (by omega)]

theorem Filetable.Formed.attach : ft.attach.Formed := by
  refine ⟨?_, fun i fd hi => ?_⟩
  · have := h.size
    simpa [ftArraySize, Filetable.attach] using this
  · have hnext : ft.attach.next = ft.next + 3 := rfl
    rw [hnext]
    by_cases h3 : i < 3
    · rw [attach_std h h3] at hi
      have := Option.some.inj (Option.some.inj hi)
      omega
    · rw [attach_other (by omega)] at hi
      have := h.allocated i fd hi
      omega

theorem ftGetStd_or (h0 : 0 ≤ fti) :
    ftGetStd ft fti = .ok (if needsStds ft fti = true then ft.attach else ft) := by
  unfold ftGetStd needsStds
  by_cases h3 : fti < 3
  · have hlt : fti.toNat < ft.filedescriptor.length := by
      have : 3 ≤ ft.filedescriptor.length := h.size
      omega
    obtain ⟨slot, hslot⟩ : ∃ slot, ft.filedescriptor[fti.toNat]? = some slot := ⟨_, List.getElem?_eq_getElem hlt⟩
    rw [if_pos h3]
    cases slot <;> simp [ftArrayGetguy, hslot, ok_bind, h0, h3, ftAttachstds_eq h.size]
  · simp [h3]

theorem ftGet_or {t : Filetable} (ht : t = if needsStds ft fti = true then ft.attach else ft) :
    ftGet ft fti = .ok (if fti < 0 then none else t.filedescriptor[fti.toNat]?.join, t) := by
  unfold ftGet
  by_cases h0 : fti < 0
  · have hno : needsStds ft fti = false := by simp [needsStds, h0]
    rw [if_pos h0, if_pos h0, ht, hno]
    rfl
  · rw [if_neg h0, if_neg h0, ftGetStd_or h (Int.not_lt.mp h0), ok_bind, ← ht]
    by_cases hlt : ftArraySize t ≤ fti.toNat
    · rw [if_pos hlt, List.getElem?_eq_none hlt]
      rfl
    · obtain ⟨slot, hslot⟩ : ∃ slot, t.filedescriptor[fti.toNat]? = some slot :=
        ⟨_, List.getElem?_eq_getElem (Nat.not_le.mp hlt)⟩
      rw [if_neg hlt, hslot]
      simp only [ftArrayGetguy, hslot, ok_bind, Option.join_some]

theorem ftGet_same (hno : needsStds ft fti = false) :
    ftGet ft fti = .ok (if fti < 0 then none else ft.filedescriptor[fti.toNat]?.join, ft) :=
  ftGet_or h (by rw [hno]; rfl)

theorem ftGet_attach (hyes : needsStds ft fti = true) : ftGet ft fti = .ok (some (ft.next + fti.toNat), ft.attach) := by
  rw [ftGet_or h (t := ft.attach) (by rw [hyes]; rfl)]
  simp only [needsStds, Bool.and_eq_true, decide_eq_true_eq] at hyes
  rw [if_neg (by omega), attach_std h (by omega)]
  rfl

end

/-! ## Undisturbed descriptors -/

def Undisturbed (ft ft' : Filetable) : Prop :=
  (∀ (i fd : Nat), ft.filedescriptor[i]? = some (some fd) →
    ft'.filedescriptor[i]? = some (some fd) ∧ ft'.memory fd = ft.memory fd) ∧ ft'.closed = ft.closed

def StdsEmpty (ft : Filetable) : Prop := ∀ i < 3, ft.filedescriptor[i]? = some none

def StdsFull (ft : Filetable) : Prop := ∀ i < 3, ∃ fd, ft.filedescriptor[i]? = some (some fd)

def OnlySlot (ft ft' : Filetable) (fti : Int) : Prop :=
  (∀ i : Nat, (i : Int) ≠ fti → ft'.filedescriptor[i]? = ft.filedescriptor[i]?) ∧
    ∀ fd, (0 ≤ fti → ft.filedescriptor[fti.toNat]? ≠ some (some fd)) → ft'.memory fd = ft.memory fd

theorem Undisturbed.refl (ft : Filetable) : Undisturbed ft ft := ⟨fun _ _ hi => ⟨hi, rfl⟩, rfl⟩

theorem needsStds_iff : needsStds ft fti = true ↔ 0 ≤ fti ∧ fti < 3 ∧ ft.filedescriptor[fti.toNat]? = some none := by
  simp [needsStds, and_assoc]

theorem StdsFull.needsStds (h : StdsFull ft) (fti : Int) : needsStds ft fti = false := by
  rw [Bool.eq_false_iff, Ne, needsStds_iff]
  intro ⟨h0, h3, hnone⟩
  obtain ⟨fd, hfd⟩ := h fti.toNat (by omega)
  rw [hnone] at hfd
  cases hfd

section
variable (h : ft.Formed)
include h

theorem Filetable.Formed.std_slot {i : Nat} (hi : i < 3) :
    ft.filedescriptor[i]? = some none ∨ ∃ fd, ft.filedescriptor[i]? = some (some fd) := by
  have hlt : i < ft.filedescriptor.length := Nat.lt_of_lt_of_le hi h.size
  rw [List.getElem?_eq_getElem hlt]
  cases ft.filedescriptor[i] with
  | none => exact Or.inl rfl
  | some fd => exact Or.inr ⟨fd, rfl⟩

theorem undisturbed_attach : Undisturbed ft ft.attach ↔ StdsEmpty ft := by
  constructor
  · intro hu i hi
    refine (h.std_slot hi).resolve_right ?_
    rintro ⟨fd, hslot⟩
    have hsame := (hu.1 i fd hslot).1
    rw [attach_std h hi] at hsame
    have := h.allocated i fd hslot
    have := Option.some.inj (Option.some.inj hsame)
    omega
  · intro he
    refine ⟨fun i fd hi => ?_, rfl⟩
    by_cases h3 : i < 3
    · rw [he i h3] at hi
      cases hi
    · exact ⟨(attach_other (by omega)).trans hi, attach_memory (h.allocated i fd hi)⟩

theorem attach_full : StdsFull ft.attach := fun _ hi => ⟨_, attach_std h hi⟩

theorem full_or_needs : StdsFull ft ∨ ∃ i < 3, needsStds ft (i : Nat) = true := by
  by_cases hfull : StdsFull ft
  · exact Or.inl hfull
  · obtain ⟨i, hi⟩ := not_forall.mp hfull
    obtain ⟨h3, hno⟩ := Classical.not_imp.mp hi
    refine Or.inr ⟨i, h3, needsStds_iff.mpr ⟨by omega, by omega, ?_⟩⟩
    rw [Int.toNat_natCast]
    exact (h.std_slot h3).resolve_right hno

/-! ## `ft_get` -/

theorem ftGetOr_same (hno : needsStds ft fti = false) :
    ftGetOr std ft fti = .ok (if fti < 0 then none else ft.filedescriptor[fti.toNat]?.join, ft) := by
  rw [ftGetOr, if_neg (by simp [hno]), ftGet_same h hno]
  rfl

theorem ftGetOr_attach (hyes : needsStds ft fti = true) :
    ftGetOr true ft fti = .ok (some (ft.next + fti.toNat), ft.attach) := by
  rw [ftGetOr, if_neg (by simp), ftGet_attach h hyes]
  rfl

omit h in
theorem ftGetOr_destroyed (hyes : needsStds ft fti = true) : ftGetOr false ft fti = .error .tableDestroyed := by
  rw [ftGetOr, if_pos ⟨hyes, rfl⟩]

theorem get_undisturbed : (∃ r ft', ftGetOr std ft fti = .ok (r, ft') ∧ Undisturbed ft ft') ↔
    (needsStds ft fti = true → std = true ∧ StdsEmpty ft) := by
  cases hneed : needsStds ft fti with
  | false =>
    rw [ftGetOr_same h hneed]
    exact ⟨fun _ => nofun, fun _ => ⟨_, ft, rfl, .refl ft⟩⟩
  | true =>
    cases std with
    | false =>
      rw [ftGetOr_destroyed hneed]
      exact ⟨nofun, fun hc => absurd (hc rfl).1 (by decide)⟩
    | true =>
      rw [ftGetOr_attach h hneed]
      constructor
      · rintro ⟨r, ft', he, hu⟩ -
        obtain ⟨-, rfl⟩ := Prod.mk.inj (Except.ok.inj he)
        exact ⟨rfl, (undisturbed_attach h).mp hu⟩
      · intro hc
        exact ⟨_, _, rfl, (undisturbed_attach h).mpr (hc rfl).2⟩

/-! ## `ft_size` -/

theorem ftSizeLoop_full {m : Nat} {total : Int} (hf : StdsFull ft) :
    ∃ n, ftSizeLoop std m i total ft = .ok (n, ft) := by
  induction m generalizing i total with
  | zero => exact ⟨total, rfl⟩
  | succ m ih =>
    unfold ftSizeLoop
    split
    · rw [ftGetOr_same h (hf.needsStds i)]
      exact ih
    · exact ⟨total, rfl⟩

theorem ftSizeLoop_needs {m j : Nat} {total : Int} (hm : ftArraySize ft ≤ i + m) (hj : i ≤ j) (hj3 : j < 3)
    (hneed : needsStds ft j = true) :
    (std = true → ∃ n, ftSizeLoop std m i total ft = .ok (n, ft.attach)) ∧
      (std = false → ftSizeLoop std m i total ft = .error .tableDestroyed) := by
  have hsize := h.size
  induction m generalizing i total with
  | zero => omega
  | succ m ih =>
    unfold ftSizeLoop
    rw [if_pos (by omega)]
    cases hi : needsStds ft i with
    | true =>
      refine ⟨fun hstd => ?_, fun hstd => ?_⟩ <;> subst hstd
      · rw [ftGetOr_attach h hi]
        exact ftSizeLoop_full h.attach (attach_full h)
      · rw [ftGetOr_destroyed hi]
        rfl
    | false =>
      have hne : i ≠ j := fun e => by rw [e, hneed] at hi; cases hi
      rw [ftGetOr_same h hi]
      exact ih (by omega) (by omega)

theorem size_undisturbed : (∃ n ft', ftSize std ft = .ok (n, ft') ∧ Undisturbed ft ft') ↔
    StdsFull ft ∨ (StdsEmpty ft ∧ std = true) := by
  unfold ftSize
  rcases full_or_needs h with hf | ⟨j, hj, hneed⟩
  · obtain ⟨n, he⟩ : ∃ n, ftSizeLoop std (ftArraySize ft) 0 (ftArraySize ft) ft = .ok (n, ft) := ftSizeLoop_full h hf
    rw [he]
    exact ⟨fun _ => Or.inl hf, fun _ => ⟨n, ft, rfl, .refl ft⟩⟩
  · have hloop : (std = true → ∃ n, ftSizeLoop std (ftArraySize ft) 0 (ftArraySize ft) ft = .ok (n, ft.attach)) ∧
        (std = false → ftSizeLoop std (ftArraySize ft) 0 (ftArraySize ft) ft = .error .tableDestroyed) :=
      ftSizeLoop_needs h (by omega) (Nat.zero_le j) hj hneed
    have hnot : ¬ StdsFull ft := fun hf => by rw [hf.needsStds] at hneed; cases hneed
    cases std with
    | false =>
      rw [hloop.2 rfl]
      refine ⟨nofun, ?_⟩
      rintro (hf | ⟨-, hc⟩)
      · exact absurd hf hnot
      · cases hc
    | true =>
      obtain ⟨n, he⟩ := hloop.1 rfl
      rw [he]
      constructor
      · rintro ⟨n', ft', he', hu⟩
        obtain ⟨-, rfl⟩ := Prod.mk.inj (Except.ok.inj he')
        exact Or.inr ⟨(undisturbed_attach h).mp hu, rfl⟩
      · intro hc
        exact ⟨n, _, rfl, (undisturbed_attach h).mpr (hc.resolve_left hnot).1⟩

/-! ## `ft_remove` -/

theorem ftRemove_or {t : Filetable} (ht : t = if needsStds ft fti = true then ft.attach else ft) :
    ∃ t', ftRemove ft fti = .ok t' ∧ (∀ i : Nat, (i : Int) ≠ fti → t'.filedescriptor[i]? = t.filedescriptor[i]?) ∧
      ∀ fd, (0 ≤ fti → t.filedescriptor[fti.toNat]? ≠ some (some fd)) → t'.memory fd = t.memory fd := by
  unfold ftRemove
  rw [ftGet_or h ht, ok_bind]
  by_cases h0 : fti < 0
  · simp only [if_pos h0]
    exact ⟨t, rfl, fun _ _ => rfl, fun _ _ => rfl⟩
  · simp only [if_neg h0]
    cases hslot : t.filedescriptor[fti.toNat]?.join with
    | none => exact ⟨t, rfl, fun _ _ => rfl, fun _ _ => rfl⟩
    | some fd =>
      have hfd : t.filedescriptor[fti.toNat]? = some (some fd) := Option.join_eq_some_iff.mp hslot
      obtain ⟨hlt, -⟩ := List.getElem?_eq_some_iff.mp hfd
      refine ⟨_, if_pos hlt, fun i hi => List.getElem?_set_ne (by omega), fun fd' hne => Function.update_of_ne ?_ _ _⟩
      rintro rfl
      exact hne (Int.not_lt.mp h0) hfd

theorem remove_only : (∃ ft', ftRemoveOr std ft fti = .ok ft' ∧ OnlySlot ft ft' fti) ↔ needsStds ft fti = false := by
  unfold ftRemoveOr
  cases hneed : needsStds ft fti with
  | false =>
    have ht : ft = if needsStds ft fti = true then ft.attach else ft := by rw [hneed]; rfl
    obtain ⟨t', he, hslots, hmem⟩ := ftRemove_or h ht
    rw [if_neg (by simp), he]
    exact ⟨fun _ => rfl, fun _ => ⟨t', rfl, hslots, hmem⟩⟩
  | true =>
    refine ⟨?_, nofun⟩
    rintro ⟨ft', he, hslots, -⟩
    split at he
    · cases he
    have ht : ft.attach = if needsStds ft fti = true then ft.attach else ft := by rw [hneed]; rfl
    obtain ⟨t', he', hslots', -⟩ := ftRemove_or h ht
    rw [he'] at he
    obtain rfl := Except.ok.inj he
    -- another standard stream has a new descriptor
    obtain ⟨h0, h3, -⟩ := needsStds_iff.mp hneed
    obtain ⟨j, hj, hne⟩ : ∃ j : Nat, j < 3 ∧ (j : Int) ≠ fti := by
      by_cases hz : fti = 0
      · exact ⟨1, by decide, by omega⟩
      · exact ⟨0, by decide, by omega⟩
    have hnew := (hslots' j hne).symm.trans (hslots j hne)
    rw [attach_std h hj] at hnew
    have := h.allocated j _ hnew.symm
    omega

/-! ## The lookup of `sys_write` -/

end

def SlotsKept (ft ft' : Filetable) : Prop :=
  ∀ (i fd : Nat), ft.filedescriptor[i]? = some (some fd) → ft'.filedescriptor[i]? = some (some fd) ∧
    (ft'.memory fd).mode = (ft.memory fd).mode ∧ (ft'.memory fd).numOwners = (ft.memory fd).numOwners ∧
    (ft'.memory fd).fdvnode = (ft.memory fd).fdvnode

theorem slotsKept_congr {t t' : Filetable} (hs : t'.filedescriptor = t.filedescriptor)
    (hm : ∀ fd, (t'.memory fd).mode = (t.memory fd).mode ∧ (t'.memory fd).numOwners = (t.memory fd).numOwners ∧
      (t'.memory fd).fdvnode = (t.memory fd).fdvnode) : SlotsKept ft t' ↔ SlotsKept ft t := by
  unfold SlotsKept
  refine forall₂_congr fun i fd => imp_congr_right fun _ => ?_
  rw [hs, (hm fd).1, (hm fd).2.1, (hm fd).2.2]

theorem Undisturbed.slotsKept (h : Undisturbed ft ft') : SlotsKept ft ft' := by
  intro i fd hi
  obtain ⟨hslot, hmem⟩ := h.1 i fd hi
  rw [hmem]
  exact ⟨hslot, rfl, rfl, rfl⟩

theorem looksUp_iff {k : WriteSys} {kmallocs : Bool} {buf : Nat} : k.looksUp kmallocs buf = true ↔
    ¬ (buf = 0 ∨ mipsKseg0 ≤ buf ∨ asValidReadAddr k.space buf = false) ∧
    ¬ (k.writelock = false ∧ kmallocs = false) := by
  unfold WriteSys.looksUp
  cases k.writelock <;> cases kmallocs <;> simp [not_or, and_assoc]

theorem sysWrite_slots {k : WriteSys} {dev : Nat → Int → List UInt8 → Option (Option Errno)}
    {kmallocs : Bool} {fdn : Int} {buf nbytes : Nat} {r : Option Nat} {t : Filetable}
    (hl : k.looksUp kmallocs buf = true) (hg : ftGet k.ft fdn = .ok (r, t)) :
    SlotsKept ft (sysWrite k dev kmallocs fdn buf nbytes).ft ↔ SlotsKept ft t := by
  obtain ⟨hbuf, hlock⟩ := looksUp_iff.mp hl
  unfold sysWrite
  rw [if_neg hbuf, if_neg hlock, hg]
  cases r with
  | none => rfl
  | some fd =>
    have hvnode : SlotsKept ft (writeVnode { k with ft := t, writelock := true } dev fd buf nbytes).ft ↔
        SlotsKept ft t := by
      unfold writeVnode
      simp only
      split
      · rfl
      · rfl
      · refine slotsKept_congr rfl fun fd' => ?_
        by_cases he : fd' = fd
        · simp [he]
        · simp [Function.update_of_ne he]
    cases hmode : (t.memory fd).mode with
    | rdonly => simp only [hmode]
    | wronly => simpa only [hmode] using hvnode
    | rdwr => simpa only [hmode] using hvnode

theorem write_undisturbed {k : WriteSys} {dev : Nat → Int → List UInt8 → Option (Option Errno)} {kmallocs : Bool}
    {buf nbytes : Nat} (h : k.ft.Formed) (hl : k.looksUp kmallocs buf = true) :
    (∃ w, sysWriteOr std k dev kmallocs fti buf nbytes = .ok w ∧ SlotsKept k.ft w.ft) ↔
      (needsStds k.ft fti = true → std = true ∧ StdsEmpty k.ft) := by
  unfold sysWriteOr
  cases hneed : needsStds k.ft fti with
  | false =>
    rw [if_neg (by simp)]
    exact ⟨fun _ => nofun, fun _ => ⟨_, rfl, (sysWrite_slots hl (ftGet_same h hneed)).mpr
      (Undisturbed.refl k.ft).slotsKept⟩⟩
  | true =>
    cases std with
    | false =>
      rw [if_pos ⟨hl, rfl, rfl⟩]
      exact ⟨fun ⟨_, hw, _⟩ => (by cases hw), fun hc => (by cases (hc rfl).1)⟩
    | true =>
      rw [if_neg (by simp)]
      have hslots : SlotsKept k.ft (sysWrite k dev kmallocs fti buf nbytes).ft ↔ SlotsKept k.ft k.ft.attach :=
        sysWrite_slots hl (ftGet_attach h hneed)
      constructor
      · rintro ⟨w, hw, hk⟩ -
        obtain rfl := Except.ok.inj hw
        have hk := hslots.mp hk
        refine ⟨rfl, (undisturbed_attach h).mp ⟨fun i fd hi => ⟨(hk i fd hi).1, ?_⟩, rfl⟩⟩
        exact attach_memory (h.allocated i fd hi)
      · intro hc
        exact ⟨_, rfl, hslots.mpr ((undisturbed_attach h).mpr (hc rfl).2).slotsKept⟩

/-! ## Together -/

/-- A lookup leaves the other descriptors alone exactly if no standard stream
is missing that it has to attach, or all three are missing and can be set up;
`ft_remove` changes nothing but its slot exactly if it does not attach. -/
theorem descriptors_undisturbed_iff (h : ft.Formed) (fti : Int) (std : Bool) :
    ((∃ r ft', ftGetOr std ft fti = .ok (r, ft') ∧ Undisturbed ft ft') ↔
      (needsStds ft fti = true → std = true ∧ StdsEmpty ft)) ∧
    ((∃ n ft', ftSize std ft = .ok (n, ft') ∧ Undisturbed ft ft') ↔ StdsFull ft ∨ (StdsEmpty ft ∧ std = true)) ∧
    ((∃ ft', ftRemoveOr std ft fti = .ok ft' ∧ OnlySlot ft ft' fti) ↔ needsStds ft fti = false) ∧
    ∀ (k : WriteSys) dev kmallocs buf nbytes, k.ft = ft → k.looksUp kmallocs buf = true →
      ((∃ w, sysWriteOr std k dev kmallocs fti buf nbytes = .ok w ∧ SlotsKept ft w.ft) ↔
        (needsStds ft fti = true → std = true ∧ StdsEmpty ft)) := by
  refine ⟨get_undisturbed h, size_undisturbed h, remove_only h, ?_⟩
  rintro k dev kmallocs buf nbytes rfl hl
  exact write_undisturbed h hl

/-- A file is open, and the standard streams have been closed. -/
def oneFile : Filetable :=
  { ftCreate 0 with
    filedescriptor := [none, none, none, some 1]
    memory := fun _ => { mode := .rdwr, offset := 7, fdvnode := 5, numOwners := 1 }
    next := 2 }

theorem descriptors_undisturbed_file : oneFile.filedescriptor[3]? = some (some 1) ∧
    ∃ r ft', ftGetOr true oneFile 1 = .ok (r, ft') ∧ Undisturbed oneFile ft' := by
  have hformed : oneFile.Formed := by
    refine ⟨by decide, fun i fd hi => ?_⟩
    have hm := List.mem_of_getElem? hi
    simp only [oneFile, List.mem_cons, Option.some.injEq, reduceCtorEq, false_or, List.not_mem_nil, or_false] at hm
    rw [hm]
    decide
  refine ⟨rfl, (descriptors_undisturbed_iff hformed 1 true).1.mpr fun _ => ⟨rfl, fun i hi => ?_⟩⟩
  interval_cases i <;> rfl

theorem lookup_replaces_others : ∃ ft₀ ft₁ ft₂, ftAttachstds (ftCreate 0) = .ok ft₀ ∧ ftRemove ft₀ 1 = .ok ft₁ ∧
    ftGet ft₁ 1 = .ok (some 5, ft₂) ∧ ft₁.filedescriptor = [some 1, none, some 3] ∧
    ft₂.filedescriptor = [some 4, some 5, some 6] ∧ ft₂.closed = [2] :=
  ⟨_, _, _, rfl, rfl, rfl, rfl, rfl, rfl⟩

end Os161
