import Os161.AddrspaceSound
import Os161.FiletableSound
import Os161.SysWrite

/-!
# What write discloses

Only the first address is checked. The bytes after it are loaded by the
kernel, and once they pass `MIPS_KSEG0` they are the kernel's own.
-/

namespace Os161

variable {as : AddrSpace} {k : WriteSys} {act : List UInt8 → Option (Option Errno)} {buf nbytes : Nat}

def Loadable (as : AddrSpace) (x : Nat) : Prop := ∃ i, faultSegment as .read (x &&& pageFrame) = .ok (.inl i)

def ReachesKernel (as : AddrSpace) (base n : Nat) : Prop :=
  mipsKseg0 < base + n ∧ ∀ x, base ≤ x → x < mipsKseg0 → Loadable as x

def OwnAddress (as : AddrSpace) (x : Nat) : Prop := x < userTop ∧ ∃ i < asNumSeg, (as.segments i).Holds x

def RangeInside (as : AddrSpace) (buf nbytes : Nat) : Prop := ∀ j < nbytes, OwnAddress as (u32 (buf + j))

def Admits (as : AddrSpace) (buf : Nat) : Prop := buf ≠ 0 ∧ buf < mipsKseg0 ∧ asValidReadAddr as buf = true

theorem admits_iff : Admits as buf ↔ ¬ (buf = 0 ∨ mipsKseg0 ≤ buf ∨ asValidReadAddr as buf = false) := by
  simp only [Admits, not_or, Nat.not_le, Bool.not_eq_false, ne_eq]

/-! ## The transfer -/

theorem Loadable.own (h : SpaceOk as) {x : Nat} (hx : x < mipsKseg0) (hl : Loadable as x) : OwnAddress as x := by
  obtain ⟨i, hi⟩ := hl
  obtain ⟨-, hg⟩ := faultSegment_inl hi
  obtain ⟨hlt, hact, hlo, hhi⟩ := asGetSegment_some hg
  have hx32 : x < 2 ^ 32 := Nat.lt_trans hx (by decide)
  refine ⟨hx, i, hlt, (holds_page h hx32 hlt).mp ⟨?_, hlo, hhi⟩⟩
  rw [hact]
  decide

theorem kernelLoad_ok {x : Nat} {b : UInt8} (hx : x < mipsKseg0) (h : kernelLoad k x = .ok b) :
    Loadable k.space x ∧ k.user x = .ok b := by
  unfold kernelLoad at h
  rw [if_pos hx] at h
  cases hf : faultSegment k.space .read (x &&& pageFrame) with
  | error why =>
    rw [hf] at h
    cases h
  | ok r =>
    cases r with
    | inl i =>
      rw [hf] at h
      exact ⟨⟨i, hf⟩, h⟩
    | inr r =>
      rw [hf] at h
      cases h

theorem ReachesKernel.pred {base n : Nat} (h : ReachesKernel as (base + 1) n) (hl : Loadable as base) :
    ReachesKernel as base (n + 1) := by
  refine ⟨by have := h.1; omega, fun x hlo hhi => ?_⟩
  rcases Nat.eq_or_lt_of_le hlo with rfl | hlt
  · exact hl
  · exact h.2 x hlt hhi

theorem u32_next {base : Nat} (h : base < mipsKseg0) : u32 (base + 1) = base + 1 :=
  u32_of_lt (by unfold mipsKseg0 at h; omega)

theorem vopWrite_loads (resid base : Nat) (sent : List (Nat × UInt8)) :
    ∀ y ∈ (vopWrite k act resid base sent).1, y ∈ sent ∨ kernelLoad k y.1 = .ok y.2 := by
  induction resid generalizing base sent with
  | zero => exact fun y hy => Or.inl hy
  | succ n ih =>
    intro y hy
    unfold vopWrite at hy
    cases ha : act (sent.map Prod.snd) with
    | some r =>
      rw [ha] at hy
      exact Or.inl hy
    | none =>
      rw [ha] at hy
      cases hk : kernelLoad k base with
      | error why =>
        rw [hk] at hy
        exact Or.inl hy
      | ok b =>
        rw [hk] at hy
        rcases ih _ _ y hy with hs | hs
        · rcases List.mem_append.mp hs with hs | hs
          · exact Or.inl hs
          · rw [List.mem_singleton.mp hs]
            exact Or.inr hk
        · exact Or.inr hs

theorem vopWrite_mono (resid base : Nat) (sent : List (Nat × UInt8)) :
    ∀ y ∈ sent, y ∈ (vopWrite k act resid base sent).1 := by
  induction resid generalizing base sent with
  | zero => exact fun y hy => hy
  | succ resid ih =>
    intro y hy
    unfold vopWrite
    cases act (sent.map Prod.snd) with
    | some r => exact hy
    | none =>
      cases kernelLoad k base with
      | error why => exact hy
      | ok b => exact ih _ _ y (List.mem_append_left _ hy)

section
variable {base resid : Nat} (hb : base ≤ mipsKseg0) (hno : ¬ ReachesKernel k.space base resid)
include hb hno

theorem base_lt {n : Nat} (hr : resid = n + 1) : base < mipsKseg0 := by
  refine Nat.lt_of_le_of_ne hb fun e => hno ⟨by omega, fun x hlo hhi => ?_⟩
  omega

theorem vopWrite_below (sent : List (Nat × UInt8)) :
    ∀ y ∈ (vopWrite k act resid base sent).1, y ∈ sent ∨ y.1 < mipsKseg0 := by
  induction resid generalizing base sent with
  | zero => exact fun y hy => Or.inl hy
  | succ n ih =>
    intro y hy
    have hlt := base_lt hb hno rfl
    unfold vopWrite at hy
    cases ha : act (sent.map Prod.snd) with
    | some r =>
      rw [ha] at hy
      exact Or.inl hy
    | none =>
      rw [ha] at hy
      cases hk : kernelLoad k base with
      | error why =>
        rw [hk] at hy
        exact Or.inl hy
      | ok b =>
        have hl := (kernelLoad_ok hlt hk).1
        simp only [hk, u32_next hlt] at hy
        rcases ih hlt (fun hr => hno (hr.pred hl)) _ y hy with hs | hs
        · rcases List.mem_append.mp hs with hs | hs
          · exact Or.inl hs
          · rw [List.mem_singleton.mp hs]
            exact Or.inr hlt
        · exact Or.inr hs

theorem vopWrite_blind (kernel : Nat → Except Panic UInt8) (sent : List (Nat × UInt8)) :
    vopWrite { k with kernel := kernel } act resid base sent = vopWrite k act resid base sent := by
  induction resid generalizing base sent with
  | zero => rfl
  | succ n ih =>
    have hlt := base_lt hb hno rfl
    unfold vopWrite
    have he : kernelLoad { k with kernel := kernel } base = kernelLoad k base := by simp only [kernelLoad, if_pos hlt]
    rw [he]
    cases act (sent.map Prod.snd) with
    | some r => rfl
    | none =>
      cases hk : kernelLoad k base with
      | error why => rfl
      | ok b =>
        simp only [u32_next hlt]
        exact ih hlt (fun hr => hno (hr.pred (kernelLoad_ok hlt hk).1)) _

end

theorem vopWrite_reaches {base n : Nat} {b : UInt8} (hr : ReachesKernel k.space base n) (hb : base ≤ mipsKseg0)
    (huser : ∀ x, ∃ c, k.user x = .ok c) (hk : k.kernel mipsKseg0 = .ok b) (sent : List (Nat × UInt8)) :
    (mipsKseg0, b) ∈ (vopWrite k (fun _ => none) n base sent).1 := by
  induction n generalizing base sent with
  | zero =>
    have := hr.1
    omega
  | succ n ih =>
    unfold vopWrite
    rcases Nat.eq_or_lt_of_le hb with rfl | hlt
    · have hload : kernelLoad k mipsKseg0 = .ok b := by
        unfold kernelLoad
        rw [if_neg (Nat.lt_irrefl _)]
        exact hk
      simp only [hload]
      exact vopWrite_mono _ _ _ _ (List.mem_append_right _ (List.mem_singleton_self _))
    · obtain ⟨i, hi⟩ := hr.2 base (Nat.le_refl _) hlt
      obtain ⟨c, hc⟩ := huser base
      have hload : kernelLoad k base = .ok c := by
        unfold kernelLoad
        rw [if_pos hlt]
        simp only [hi]
        exact hc
      simp only [hload, u32_next hlt]
      refine ih ⟨?_, fun x hlo hhi => hr.2 x (by omega) hhi⟩ hlt _
      have := hr.1
      omega

/-! ## The system call -/

section
variable {dev : Nat → Int → List UInt8 → Option (Option Errno)} {kmallocs : Bool} {fdn : Int}

theorem writeVnode_sent {fd : Nat} : (writeVnode k dev fd buf nbytes).sent =
    (vopWrite k (dev (k.ft.memory fd).fdvnode (k.ft.memory fd).offset) nbytes buf []).1 := by
  unfold writeVnode
  simp only
  rcases vopWrite k (dev (k.ft.memory fd).fdvnode (k.ft.memory fd).offset) nbytes buf [] with
    ⟨sent, why | ⟨e | e, resid⟩⟩
  all_goals rfl

theorem sysWrite_refused (h : ¬ Admits k.space buf) : sysWrite k dev kmallocs fdn buf nbytes =
    { result := .returns .efault, sent := [], ft := k.ft, writelock := k.writelock } := by
  unfold sysWrite
  rw [if_pos (Classical.not_not.mp fun hc => h (admits_iff.mpr hc))]

theorem sysWrite_sent {y : Nat × UInt8} (h : y ∈ (sysWrite k dev kmallocs fdn buf nbytes).sent) : Admits k.space buf ∧
    ∃ ft fd, y ∈ (vopWrite { k with ft := ft, writelock := true }
      (dev (ft.memory fd).fdvnode (ft.memory fd).offset) nbytes buf []).1 := by
  by_cases ha : Admits k.space buf
  · refine ⟨ha, ?_⟩
    unfold sysWrite at h
    split at h
    · cases h
    · split at h
      · cases h
      · split at h
        · cases h
        · cases h
        · rename_i fd ft _
          split at h
          · cases h
          all_goals
            rw [writeVnode_sent] at h
            exact ⟨ft, fd, h⟩
  · rw [sysWrite_refused ha] at h
    cases h

theorem sysWrite_blind (hb : buf ≤ mipsKseg0) (hno : ¬ ReachesKernel k.space buf nbytes)
    (kernel : Nat → Except Panic UInt8) :
    sysWrite { k with kernel := kernel } dev kmallocs fdn buf nbytes = sysWrite k dev kmallocs fdn buf nbytes := by
  have hw : ∀ ft fd, writeVnode { k with ft := ft, writelock := true, kernel := kernel } dev fd buf nbytes =
      writeVnode { k with ft := ft, writelock := true } dev fd buf nbytes := by
    intro ft fd
    have hv := @vopWrite_blind { k with ft := ft, writelock := true } (dev (ft.memory fd).fdvnode (ft.memory fd).offset)
      buf nbytes hb hno kernel []
    unfold writeVnode
    simp only [hv]
  unfold sysWrite
  simp only [hw]

theorem sysWrite_console (ha : Admits k.space buf) (hft : k.ft = (FtRun.start 0).ft) :
    (sysWrite k (fun _ _ _ => none) true 1 buf nbytes).sent =
      (vopWrite { k with writelock := true } (fun _ => none) nbytes buf []).1 := by
  have hget : ftGet k.ft 1 = .ok (some 2, k.ft) := by
    rw [hft]
    rfl
  have hmode : (k.ft.memory 2).mode = .wronly := by
    rw [hft]
    rfl
  unfold sysWrite
  rw [if_neg (admits_iff.mp ha), if_neg (by simp), hget]
  simp only [hmode, writeVnode_sent]

end

/-! ## Disclosure -/

def SendsOwn (as : AddrSpace) (buf nbytes : Nat) : Prop :=
  ∀ k dev kmallocs fdn, k.space = as → ∀ y ∈ (sysWrite k dev kmallocs fdn buf nbytes).sent,
    OwnAddress as y.1 ∧ k.user y.1 = .ok y.2

def IsBlind (as : AddrSpace) (buf nbytes : Nat) : Prop :=
  ∀ k dev kmallocs fdn kernel, k.space = as →
    sysWrite { k with kernel := kernel } dev kmallocs fdn buf nbytes = sysWrite k dev kmallocs fdn buf nbytes

def Refuses (as : AddrSpace) (buf nbytes : Nat) : Prop :=
  ¬ RangeInside as buf nbytes → ∀ k dev kmallocs fdn, k.space = as →
    (sysWrite k dev kmallocs fdn buf nbytes).result = .returns .efault ∧
      (sysWrite k dev kmallocs fdn buf nbytes).sent = []

def writer (as : AddrSpace) (b : UInt8) : WriteSys where
  space := as
  ft := (FtRun.start 0).ft
  writelock := true
  user _ := .ok 0
  kernel _ := .ok b

theorem sendsOwn_iff (h : SpaceOk as) : SendsOwn as buf nbytes ↔ (Admits as buf → ¬ ReachesKernel as buf nbytes) := by
  constructor
  · intro hown ha hr
    have hsent := hown (writer as 1) (fun _ _ _ => none) true 1 rfl (mipsKseg0, 1)
    rw [sysWrite_console ha rfl] at hsent
    have hlt := (hsent (vopWrite_reaches hr (Nat.le_of_lt ha.2.1) (fun _ => ⟨0, rfl⟩) rfl [])).1.1
    exact absurd hlt (Nat.lt_irrefl _)
  · intro hno k dev kmallocs fdn hk y hy
    subst hk
    obtain ⟨ha, ft, fd, hy⟩ := sysWrite_sent hy
    have hlt := (vopWrite_below (k := { k with ft := ft, writelock := true }) (Nat.le_of_lt ha.2.1) (hno ha) [] y
      hy).resolve_left List.not_mem_nil
    have hload := (vopWrite_loads _ _ _ y hy).resolve_left List.not_mem_nil
    obtain ⟨hl, hu⟩ := kernelLoad_ok hlt hload
    exact ⟨hl.own h hlt, hu⟩

theorem isBlind_iff : IsBlind as buf nbytes ↔ (Admits as buf → ¬ ReachesKernel as buf nbytes) := by
  constructor
  · intro hblind ha hr
    have he := congrArg Written.sent (hblind (writer as 1) (fun _ _ _ => none) true 1 (fun _ => .ok 2) rfl)
    rw [sysWrite_console (k := writer as 1) ha rfl,
      sysWrite_console (k := { writer as 1 with kernel := fun _ => .ok 2 }) ha rfl] at he
    have hsent := vopWrite_reaches (k := { writer as 1 with kernel := fun _ => .ok 2, writelock := true }) hr
      (Nat.le_of_lt ha.2.1) (fun _ => ⟨0, rfl⟩) rfl []
    rw [he] at hsent
    have hload := (vopWrite_loads _ _ _ _ hsent).resolve_left List.not_mem_nil
    simp [kernelLoad, writer] at hload
  · intro hno k dev kmallocs fdn kernel hk
    subst hk
    by_cases ha : Admits k.space buf
    · exact sysWrite_blind (Nat.le_of_lt ha.2.1) (hno ha) kernel
    · rw [sysWrite_refused ha, sysWrite_refused (k := { k with kernel := kernel }) ha]

theorem refuses_iff : Refuses as buf nbytes ↔ (Admits as buf → RangeInside as buf nbytes) := by
  constructor
  · intro href ha
    by_contra hno
    have hbad : (sysWrite (writer as 1) (fun _ _ _ => none) true (-1) buf nbytes).result = .returns .ebadf := by
      have ha' : Admits (writer as 1).space buf := ha
      have hget : ftGet (writer as 1).ft (-1) = .ok (none, (writer as 1).ft) := rfl
      unfold sysWrite
      rw [if_neg (admits_iff.mp ha'), if_neg (by simp), hget]
    rw [(href hno (writer as 1) (fun _ _ _ => none) true (-1) rfl).1] at hbad
    cases hbad
  · intro hin hno k dev kmallocs fdn hk
    subst hk
    rw [sysWrite_refused fun ha => hno (hin ha)]
    exact ⟨rfl, rfl⟩

theorem RangeInside.not_reaches (hb : buf < mipsKseg0) (h : RangeInside as buf nbytes) :
    ¬ ReachesKernel as buf nbytes := by
  intro hr
  have hlt := (h (mipsKseg0 - buf) (by have := hr.1; omega)).1
  rw [Nat.add_sub_cancel' (Nat.le_of_lt hb)] at hlt
  exact absurd hlt (by decide)

/-- `sys_write` sends only bytes of the caller, whatever other memory holds, and refuses what leaves its address space,
exactly if the check on the first address fails or the whole range is the caller's. It discloses nothing else exactly if
the check fails or the loads stop before the kernel's memory. -/
theorem write_discloses_iff (h : SpaceOk as) :
    (SendsOwn as buf nbytes ∧ IsBlind as buf nbytes ∧ Refuses as buf nbytes ↔
        (Admits as buf → RangeInside as buf nbytes)) ∧
      (SendsOwn as buf nbytes ∧ IsBlind as buf nbytes ↔ (Admits as buf → ¬ ReachesKernel as buf nbytes)) := by
  rw [sendsOwn_iff h, isBlind_iff, refuses_iff, and_self]
  refine ⟨⟨fun hs => hs.2.2, fun hin => ?_⟩, Iff.rfl⟩
  have hno : Admits as buf → ¬ ReachesKernel as buf nbytes := fun ha => (hin ha).not_reaches ha.2.1
  exact ⟨hno, hno, hin⟩

theorem write_discloses_code : SendsOwn onePageSpace 0x400000 16 ∧ IsBlind onePageSpace 0x400000 16 ∧
    Refuses onePageSpace 0x400000 16 := by
  refine (write_discloses_iff onePageSpace_built.ok).1.mpr fun _ j hj => ?_
  have hu : u32 (0x400000 + j) = 0x400000 + j := u32_of_lt (by omega)
  have hend : u32 ((onePageSpace.segments 0).vbase + (onePageSpace.segments 0).size * pageSize) = 0x401000 := by decide
  rw [hu]
  refine ⟨by unfold userTop mipsKseg0; omega, 0, by decide, by decide, Nat.le_add_right .., ?_⟩
  rw [hend]
  omega

theorem write_discloses_kernel :
    (sysWrite (writer onePageSpace 7) (fun _ _ _ => none) true 1 0x7fffffff 2).sent =
    [(0x7fffffff, 0), (0x80000000, 7)] ∧
    (sysWrite (writer onePageSpace 7) (fun _ _ _ => none) true 1 0x7fffffff 2).result = .wrote 2 := by
  decide

end Os161
