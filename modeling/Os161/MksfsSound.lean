import Os161.MountSound

/-!
# A new volume

What `mksfs` writes can be mounted: a volume whose root directory is empty.
-/

namespace Os161

open Bytes Outcome Proc Tally

/-! ## The superblock -/

theorem readSuper_superBlock {volname : CString} {n : Nat} (hlen : strlen volname < sfsVolnameSize) (hn : n < 2 ^ 32) :
    readSuper (superBlock { spMagic := sfsMagic, spNblocks := n, spVolname := volname.chars }) =
      { spMagic := sfsMagic, spNblocks := n, spVolname := volname.chars } := by
  have hhead : ∀ sp a w, a + w ≤ 8 →
      getBE (superBlock sp) a w = getBE (putBE (putBE zeroBlock 0 4 sp.spMagic) 4 4 sp.spNblocks) a w :=
    fun sp a w h => getBE_congr fun x _ hx => if_pos (by omega)
  simp only [readSuper, Super.mk.injEq]
  refine ⟨?_, ?_, readString_eq (Nat.le_sub_one_of_lt hlen) fun k => ?_⟩
  · rw [hhead _ 0 4 (by decide), getBE_putBE_of_disjoint (Or.inl (by decide)), getBE_putBE]
    rfl
  · rw [hhead _ 4 4 (by decide), getBE_putBE]
    exact Nat.mod_eq_of_lt hn
  · unfold superBlock
    rw [if_neg (by omega), Nat.add_sub_cancel_left]
    rfl

/-! ## The free map -/

section
variable {l : List Nat} {f g : Nat → Bool} {n b : Nat}

theorem doallocbits_ok (h : doallocbits l f = .ok g) :
    l.Nodup ∧ (∀ b ∈ l, f b = false) ∧ ∀ b, g b = true ↔ b ∈ l ∨ f b = true := by
  induction l generalizing f with
  | nil =>
    obtain rfl := Except.ok.inj h
    simp
  | cons bit l ih =>
    unfold doallocbits at h
    split at h
    · cases h
    rename_i hbit
    obtain ⟨hn, hclear, hg⟩ := ih h
    have hmem : bit ∉ l := fun hb => by simpa using hclear bit hb
    refine ⟨List.nodup_cons.mpr ⟨hmem, hn⟩, fun b hb => ?_, fun b => ?_⟩
    · rcases List.mem_cons.mp hb with rfl | hb
      · simpa using hbit
      · have hf := hclear b hb
        rwa [Function.update_of_ne (fun e : b = bit => hmem (e ▸ hb))] at hf
    · rw [hg, List.mem_cons]
      by_cases hb : b = bit
      · rw [hb, Function.update_self]
        simp
      · rw [Function.update_of_ne hb]
        simp [hb]

theorem doallocbits_succeeds (hn : l.Nodup) (hf : ∀ b ∈ l, f b = false) : ∃ g, doallocbits l f = .ok g := by
  induction l generalizing f with
  | nil => exact ⟨f, rfl⟩
  | cons bit l ih =>
    obtain ⟨hmem, hn⟩ := List.nodup_cons.mp hn
    unfold doallocbits
    rw [if_neg (by rw [hf bit List.mem_cons_self]; exact Bool.false_ne_true)]
    refine ih hn fun b hb => ?_
    rw [Function.update_of_ne (fun e : b = bit => hmem (e ▸ hb))]
    exact hf b (List.mem_cons_of_mem _ hb)

theorem bitmapsize_eq (n : Nat) : sfsBitmapsize n = sfsBitblocks n * 4096 := by
  unfold sfsBitblocks sfsBitmapsize
  rw [Nat.mul_div_cancel _ (by decide)]
  rfl

theorem mem_usedBits (hb : b < sfsBitmapsize n) : b ∈ usedBits n ↔ b = sfsRootLocation ∨ SystemBlock n b := by
  simp only [usedBits, List.mem_append, List.mem_cons, List.not_mem_nil, or_false, List.mem_map, List.mem_range,
    SystemBlock]
  constructor
  · rintro (((h | h) | ⟨j, hj, rfl⟩) | ⟨j, hj, rfl⟩)
    · exact Or.inr (Or.inl h)
    · exact Or.inl h
    · exact Or.inr (Or.inr (Or.inl ⟨Nat.le_add_right .., Nat.add_lt_add_left hj _⟩))
    · exact Or.inr (Or.inr (Or.inr (Nat.le_add_right ..)))
  · rintro (h | h | h | h)
    · exact Or.inl (Or.inl (Or.inr h))
    · exact Or.inl (Or.inl (Or.inl h))
    · exact Or.inl (Or.inr ⟨b - sfsMapLocation, by omega, by omega⟩)
    · exact Or.inr ⟨b - n, by omega, by omega⟩

theorem usedBits_nodup_iff (hn : 0 < n) : (usedBits n).Nodup ↔ sfsMapLocation + sfsBitblocks n ≤ n := by
  have hsize := bitmapsize_eq n
  have hle := le_sfsBitmapsize n
  have hsb : sfsSbLocation = 0 := rfl
  have hroot : sfsRootLocation = 1 := rfl
  have hmap : sfsMapLocation = 2 := rfl
  constructor
  · intro h
    by_contra hlt
    refine List.disjoint_of_nodup_append h (a := n) ?_ (List.mem_map.mpr ⟨0, List.mem_range.mpr (by omega), rfl⟩)
    by_cases h1 : n = 1
    · exact List.mem_append_left _ (by simp [h1, hroot])
    · exact List.mem_append_right _ (List.mem_map.mpr ⟨n - 2, List.mem_range.mpr (by omega), by omega⟩)
  · intro h
    have hadd : ∀ k m, ((List.range m).map (k + ·)).Nodup := fun k m =>
      List.nodup_range.map fun x y e => Nat.add_left_cancel e
    refine List.nodup_append.mpr ⟨List.nodup_append.mpr ⟨by decide, hadd _ _, fun x hx y hy => ?_⟩, hadd _ _,
      fun x hx y hy => ?_⟩
    · obtain ⟨j, -, rfl⟩ := List.mem_map.mp hy
      rcases List.mem_cons.mp hx with rfl | hx
      · omega
      · have := List.mem_singleton.mp hx
        omega
    · obtain ⟨j, -, rfl⟩ := List.mem_map.mp hy
      rcases List.mem_append.mp hx with hx | hx
      · rcases List.mem_cons.mp hx with rfl | hx
        · omega
        · have := List.mem_singleton.mp hx
          omega
      · obtain ⟨i, hi, rfl⟩ := List.mem_map.mp hx
        have := List.mem_range.mp hi
        omega

end

/-! ## The volume name -/

/-- The argument is the name, which has neither colon nor slash, or the name
and a colon. -/
def NamesVolume (arg volname : CString) : Prop :=
  (arg.chars = volname.chars ∨ arg.chars = volname.chars ++ [colon]) ∧ colon ∉ volname.chars ∧ slash ∉ volname.chars

theorem strchr_eq_none {s : CString} {ch : UInt8} (hch : ch ≠ 0) : strchr s ch = none ↔ ch ∉ s.chars := by
  unfold strchr
  cases h : s.chars.findIdx? (· == ch) with
  | some i =>
    obtain ⟨hi, hget, -⟩ := List.findIdx?_eq_some_iff_getElem.mp h
    have hmem := List.getElem_mem hi
    rw [eq_of_beq hget] at hmem
    simp [hmem]
  | none =>
    have hne := List.findIdx?_eq_none_iff.mp h
    simp only [if_neg hch, true_iff]
    exact fun hmem => by simpa using hne ch hmem

theorem strchr_eq_some {s : CString} {ch : UInt8} {k : Nat} (h : strchr s ch = some k) (hch : ch ≠ 0) :
    ∃ l, s.chars = s.chars.take k ++ ch :: l ∧ ch ∉ s.chars.take k := by
  unfold strchr at h
  rw [if_neg hch] at h
  cases hi : s.chars.findIdx? (· == ch) with
  | none => rw [hi] at h; cases h
  | some i =>
    rw [hi] at h
    cases h
    obtain ⟨hlt, hget, hbefore⟩ := List.findIdx?_eq_some_iff_getElem.mp hi
    refine ⟨s.chars.drop (k + 1), ?_, fun hmem => ?_⟩
    · rw [← eq_of_beq hget, List.getElem_cons_drop, List.take_append_drop]
    · obtain ⟨j, hj, hje⟩ := List.mem_take_iff_getElem.mp hmem
      exact hbefore j (by omega) (beq_iff_eq.mpr hje)

theorem strchr_append {s t : CString} {ch : UInt8} {l : List UInt8} (hs : s.chars = t.chars ++ ch :: l)
    (ht : ch ∉ t.chars) : strchr s ch = some (strlen t) := by
  have hidx : s.chars.findIdx? (· == ch) = some t.chars.length := by
    rw [hs, List.findIdx?_append, List.findIdx?_eq_none_iff.mpr fun x hx => by
      rw [beq_eq_false_iff_ne]
      rintro rfl
      exact ht hx]
    simp [List.findIdx?_cons]
  unfold strchr strlen
  rw [hidx]

theorem volumeName_eq_some {arg volname : CString} : volumeName arg = some volname ↔ NamesVolume arg volname := by
  have hslash : (strchr volname slash).isNone = true ↔ slash ∉ volname.chars := by
    rw [Option.isNone_iff_eq_none, strchr_eq_none (by decide)]
  unfold volumeName NamesVolume
  cases h : strchr arg colon with
  | none =>
    have hno := (strchr_eq_none (by decide)).mp h
    simp only [Option.filter_eq_some_iff, Option.some.injEq]
    constructor
    · rintro ⟨rfl, hs⟩
      exact ⟨Or.inl rfl, hno, hslash.mp hs⟩
    · rintro ⟨he | he, hc, hs⟩
      · exact ⟨CString.ext he, hslash.mpr hs⟩
      · rw [he] at hno
        simp at hno
  | some k =>
    obtain ⟨l, hl, hk⟩ := strchr_eq_some h (by decide)
    have hlen : (arg.chars.take k).length = k := by
      rw [List.length_take]
      have := congrArg List.length hl
      simp at this
      omega
    have hall : strlen arg = k + (l.length + 1) := by
      unfold strlen
      rw [hl, List.length_append, hlen]
      rfl
    dsimp only
    rw [hall, Nat.add_sub_cancel_left]
    by_cases hnil : l = []
    · subst hnil
      rw [if_neg (by simp), Option.filter_eq_some_iff]
      constructor
      · rintro ⟨hup, hs⟩
        obtain rfl := Option.some_inj.mp hup
        exact ⟨Or.inr hl, hk, hslash.mp hs⟩
      · rintro ⟨he | he, hc, hs⟩
        · rw [← he, hl] at hc
          simp at hc
        · refine ⟨congrArg some (CString.ext ?_), hslash.mpr hs⟩
          rw [hl] at he
          exact List.append_cancel_right he
    · rw [if_pos (by simpa using hnil)]
      simp only [Option.filter_none, reduceCtorEq, false_iff, not_and]
      rintro (he | he) hc
      · rw [← he, hl] at hc
        simp at hc
      · rw [strchr_append he hc] at h
        have := congrArg List.length he
        have hk' := Option.some_inj.mp h
        unfold strlen at hall hk'
        simp at this
        exact absurd (List.eq_nil_of_length_eq_zero (by omega)) hnil
/-! ## The image -/

section
variable {stSize n b : Nat} {arg volname : CString} {disk image : Nat → Mem} {t : Sfs} {a : Vol}

structure NewImage (n : Nat) (volname : CString) (image : Nat → Mem) : Prop where
  fits : sfsMapLocation + sfsBitblocks n ≤ n
  small : n ≤ 2 ^ 22
  super : readSuper (image sfsSbLocation) = { spMagic := sfsMagic, spNblocks := n, spVolname := volname.chars }
  root : readInode (image sfsRootLocation) = rootInode
  map : ∀ b < sfsBitmapsize n, diskBit image b = true ↔ b = sfsRootLocation ∨ SystemBlock n b

theorem mksfs_iff (hn : 0 < stSize / sfsBlocksize) : (∃ image, mksfs stSize arg disk = .ok (some image)) ↔
    (∃ volname, NamesVolume arg volname ∧ strlen volname < sfsVolnameSize) ∧
      sfsBitblocks (stSize / sfsBlocksize) ≤ maxBitblocks ∧
      sfsMapLocation + sfsBitblocks (stSize / sfsBlocksize) ≤ stSize / sfsBlocksize := by
  rw [← usedBits_nodup_iff hn]
  simp only [← volumeName_eq_some]
  unfold mksfs
  dsimp only
  cases hv : volumeName arg with
  | none => simp
  | some volname =>
    dsimp only
    split
    · simp; omega
    split
    · simp; omega
    rename_i hlen hmax
    constructor
    · rintro ⟨image, h⟩
      obtain ⟨bitbuf, hbits, -⟩ := bind_eq_ok.mp h
      exact ⟨⟨volname, rfl, Nat.lt_of_not_le hlen⟩, Nat.le_of_not_lt hmax, (doallocbits_ok hbits).1⟩
    · rintro ⟨-, -, hnodup⟩
      obtain ⟨bitbuf, hbits⟩ := doallocbits_succeeds hnodup (f := fun _ => false) fun _ _ => rfl
      rw [hbits]
      exact ⟨_, rfl⟩

theorem mksfs_image (hn : 0 < stSize / sfsBlocksize) (h : mksfs stSize arg disk = .ok (some image)) :
    ∃ volname, NamesVolume arg volname ∧ NewImage (stSize / sfsBlocksize) volname image := by
  obtain ⟨⟨volname, hname, hlen⟩, hmax, hfits⟩ := (mksfs_iff hn).mp ⟨image, h⟩
  have hsmall : stSize / sfsBlocksize ≤ 2 ^ 22 := by
    have hle := le_sfsBitmapsize (stSize / sfsBlocksize)
    rw [bitmapsize_eq] at hle
    unfold maxBitblocks at hmax
    omega
  refine ⟨volname, hname, ?_⟩
  unfold mksfs at h
  rw [volumeName_eq_some.mpr hname] at h
  dsimp only at h
  rw [if_neg (Nat.not_le.mpr hlen), if_neg (Nat.not_lt.mpr hmax)] at h
  obtain ⟨bitbuf, hbits, he⟩ := bind_eq_ok.mp h
  obtain rfl := Option.some_inj.mp (Except.ok.inj he)
  refine ⟨hfits, hsmall, readSuper_superBlock hlen (Nat.lt_of_le_of_lt hsmall (by decide)),
    readInode_inodeBlock ⟨by decide, by decide, by decide, fun _ => show 0 < 2 ^ 32 by decide, by decide⟩,
    fun b hb => ?_⟩
  have hne : ∀ j, sfsMapLocation + j ≠ sfsSbLocation ∧ sfsMapLocation + j ≠ sfsRootLocation := fun j => by
    unfold sfsMapLocation sfsSbLocation sfsRootLocation
    omega
  rw [← mem_usedBits hb]
  unfold diskBit
  dsimp only
  rw [if_neg (hne _).1, if_neg (hne _).2, if_pos (Nat.add_lt_add_left (div_blockbits hb) _), Nat.add_sub_cancel_left,
    mapBlock, getBit_ofBits, Nat.mul_comm, Nat.div_add_mod, (doallocbits_ok hbits).2.2 b]
  simp

def newOwner (n b : Nat) : BlockOwner :=
  if b = sfsRootLocation then .inode
  else if b = sfsSbLocation ∨ (sfsMapLocation ≤ b ∧ b < sfsMapLocation + sfsBitblocks n) ∨ n ≤ b then .system
  else .free

theorem newOwner_ne {x : BlockOwner} (hi : x ≠ .inode) (hs : x ≠ .system) (hf : x ≠ .free) : newOwner n b ≠ x := by
  unfold newOwner
  split
  · exact hi.symm
  · split
    · exact hs.symm
    · exact hf.symm

theorem newOwner_inode : newOwner n b = .inode ↔ b = sfsRootLocation := by
  unfold newOwner
  split
  · simpa
  · split <;> simpa

theorem newOwner_system (hn : sfsMapLocation + sfsBitblocks n ≤ n) : newOwner n b = .system ↔ SystemBlock n b := by
  unfold newOwner SystemBlock
  split
  · rename_i hb
    rw [hb]
    unfold sfsMapLocation at hn ⊢
    unfold sfsRootLocation sfsSbLocation
    simp
    omega
  · split
    · simpa
    · rename_i hb
      simp only [reduceCtorEq, false_iff]
      exact hb

theorem newOwner_free (hn : sfsMapLocation + sfsBitblocks n ≤ n) :
    newOwner n b ≠ .free ↔ b = sfsRootLocation ∨ SystemBlock n b := by
  rw [← newOwner_system hn, ← newOwner_inode (n := n)]
  unfold newOwner
  split
  · simp
  · split <;> simp

theorem NewImage.inode (h : NewImage n volname image) (ht : t.disk = image) :
    t.mounted.inode sfsRootLocation = rootInode := by
  show readInode (t.disk sfsRootLocation) = _
  rw [ht, h.root]

theorem NewImage.ptr (h : NewImage n volname image) (ht : t.disk = image) (k : Nat) :
    t.mounted.ptr sfsRootLocation k = 0 := by
  unfold Sfs.ptr Inode.ptr
  rw [h.inode ht]
  simp [rootInode]

theorem NewImage.mounted (h : NewImage n volname image) (ht : t.disk = image) (hd : n ≤ t.dBlocks)
    (hsec : t.dBlocksize = sfsBlocksize) (hl : t.lost = []) : Owned (newOwner n) t.mounted := by
  have hsuper : t.mounted.sfsSuper = { spMagic := sfsMagic, spNblocks := n, spVolname := volname.chars } := by
    show readSuper (t.disk sfsSbLocation) = _
    rw [ht, h.super]
  have hnb : t.mounted.nblocks = n := by unfold Sfs.nblocks; rw [hsuper]
  have hbits : t.mounted.nbits = sfsBitmapsize n := by unfold Sfs.nbits; rw [hnb]
  have hin : ∀ i, newOwner n i = .inode → t.mounted.inode i = rootInode := fun i hi => by
    rw [newOwner_inode.mp hi, h.inode ht]
  have hfree : ∀ b < sfsBitmapsize n, t.mounted.sfsFreemap b = diskBit image b := fun b hb => by
    rw [← ht]
    refine if_pos ?_
    rw [ht, h.super]
    exact div_blockbits hb
  refine ⟨by rw [hnb]; exact h.fits, by rw [hnb]; exact h.small, by rw [hnb]; exact hd, hsec, hl,
    newOwner_inode.mpr rfl,
    fun b hb => ?_, fun b => by rw [hnb]; exact newOwner_system h.fits, fun b i k => ?_, fun b i => ?_,
    fun _ hsv => absurd hsv List.not_mem_nil, List.nodup_nil, fun _ hsv => absurd hsv List.not_mem_nil, fun i hi => ?_,
    by rw [hsuper], rfl, rfl, fun _ b hb => ?_⟩
  · rw [hbits] at hb
    rw [hfree b hb, h.map b hb, newOwner_free h.fits]
  · refine ⟨fun e => absurd e (newOwner_ne (by simp) (by simp) (by simp)), ?_⟩
    rintro ⟨hi, -, hp, hb⟩
    rw [newOwner_inode.mp hi, h.ptr ht] at hp
    exact absurd hp.symm hb
  · refine ⟨fun e => absurd e (newOwner_ne (by simp) (by simp) (by simp)), ?_⟩
    rintro ⟨hi, hp, hb⟩
    rw [hin i hi] at hp
    exact absurd hp.symm hb
  · rw [hin i hi]
    exact ⟨by decide, (if_pos (newOwner_inode.mp hi)).symm, by decide⟩
  · rw [hbits] at hb
    rw [hfree b hb, ← ht]
    rfl

theorem NewImage.slotIno (h : NewImage n volname image) (ht : t.disk = image) (k : Nat) :
    (t.mounted.vol (newOwner n)).slotIno sfsRootLocation k = sfsNoino := by
  have hzero : (t.mounted.vol (newOwner n)).slot sfsRootLocation k = zeroBlock := by
    funext y
    unfold Vol.slot
    split
    · exact if_neg fun hp => hp.2 (h.ptr ht _)
    · rfl
  unfold Vol.slotIno
  rw [hzero]
  exact getBE_zeroBlock 0 4

theorem VolOk.of_empty (hslot : ∀ k, a.slotIno sfsRootLocation k = sfsNoino)
    (htype : (a.view sfsRootLocation).type = sfsTypeDir) (hsize : (a.view sfsRootLocation).size = 0)
    (hcounts : ∀ i v, a.counts i = some v → 0 < v.vnRefcount ∧ 0 ≤ v.vnOpencount ∧ v.vnOpencount ≤ v.vnRefcount)
    (hlink : ∀ i, a.live i → (a.view i).linkcount = if i = sfsRootLocation then 1 else 0)
    (hheld : ∀ i, a.live i → i ≠ sfsRootLocation → a.Loaded i) (hno : ¬ a.live sfsNoino) : VolOk a := by
  refine ⟨hcounts, ⟨htype, by rw [hsize]; rfl, by rw [hsize]; exact Nat.zero_le _,
    fun k _ l _ hk => absurd (hslot k) hk,
    fun k _ => hslot k⟩, fun k hk => absurd (hslot k) hk, fun i hi => ?_, fun i hi h0 => hheld i hi fun e => ?_, hno⟩
  · have hnone : a.nlinks i = 0 := nlinks_eq_zero fun k e => hno ((hslot k).symm.trans e ▸ hi)
    rw [hlink i hi, Vol.links, hnone, Nat.zero_add]
  · rw [hlink i hi, if_pos e] at h0
    cases h0

theorem NewImage.ok (h : NewImage n volname image) (ht : t.disk = image) : VolOk (t.mounted.vol (newOwner n)) := by
  have hroot := h.inode ht
  refine .of_empty (h.slotIno ht) (congrArg Inode.sfiType hroot) (congrArg Inode.sfiSize hroot)
    (fun i v hv => by cases hv)
    (fun i hi => ?_) (fun i hi hne => absurd (newOwner_inode.mp hi) hne)
    fun h0 => absurd (newOwner_inode.mp h0) (by decide)
  rw [newOwner_inode.mp hi, if_pos rfl]
  exact congrArg Inode.sfiLinkcount hroot

theorem new_volume (hn : 0 < stSize / sfsBlocksize) (hm : mksfs stSize arg disk = .ok (some image))
    (ht : t.disk = image) (hd : stSize / sfsBlocksize ≤ t.dBlocks) (hsec : t.dBlocksize = sfsBlocksize)
    (hl : t.lost = []) (hf : t.faults = []) :
    sfsDomount t = .ok (.ok (), t.mounted) ∧ ∃ own, RepAt True own t.mounted (t.mounted.vol own) ∧
      (∀ b, own b ≠ .taken) ∧ VolOk (t.mounted.vol own) ∧
      (∃ volname, NamesVolume arg volname ∧ t.mounted.sfsSuper.spVolname = volname.chars) ∧
      (∀ i, own i = .inode ↔ i = sfsRootLocation) ∧ ∀ k, (t.mounted.vol own).slotIno sfsRootLocation k = sfsNoino := by
  obtain ⟨volname, hname, him⟩ := mksfs_image hn hm
  have hsuper : readSuper (t.disk sfsSbLocation) = _ := ht ▸ him.super
  obtain ⟨_, s, he, rfl⟩ := (domount_spec hf hsec (by rw [hsuper]) (by rw [hsuper]; exact him.fits.trans hd)
    (by rw [hsuper]; exact him.fits.trans him.small)).returns
  exact ⟨he, newOwner _, ⟨him.mounted ht hd hsec hl, fun _ => Iff.rfl, fun _ _ => rfl, rfl, fun _ => hf⟩,
    fun b => newOwner_ne (by simp) (by simp) (by simp), him.ok ht, ⟨volname, hname, congrArg Super.spVolname hsuper⟩,
    fun i => newOwner_inode, him.slotIno ht⟩

end

/-- `mksfs` completes if the name is legal, the name and the map are not too
long and the map fits on the disk; what it has written can then be mounted. -/
theorem mksfs_mounts {stSize : Nat} {arg : CString} {disk : Nat → Mem} (hsize : sfsBlocksize ≤ stSize) :
    ((∃ image, mksfs stSize arg disk = .ok (some image)) ↔
      (∃ volname, NamesVolume arg volname ∧ strlen volname < sfsVolnameSize) ∧
        sfsBitblocks (stSize / sfsBlocksize) ≤ maxBitblocks ∧
        sfsMapLocation + sfsBitblocks (stSize / sfsBlocksize) ≤ stSize / sfsBlocksize) ∧
    ∀ image t, mksfs stSize arg disk = .ok (some image) → t.disk = image → stSize / sfsBlocksize ≤ t.dBlocks →
      t.dBlocksize = sfsBlocksize → t.lost = [] → t.faults = [] →
      ∃ s own volname, sfsDomount t = .ok (.ok (), s) ∧ Rep True s (s.vol own) ∧ VolOk (s.vol own) ∧
        NamesVolume arg volname ∧ s.sfsSuper.spVolname = volname.chars ∧ (∀ i, own i = .inode ↔ i = sfsRootLocation) ∧
        ∀ name, ¬ (s.vol own).HasName sfsRootLocation name := by
  have hn : 0 < stSize / sfsBlocksize := Nat.div_pos hsize (by decide)
  refine ⟨mksfs_iff hn, fun image t hm ht hd hsec hl hf => ?_⟩
  obtain ⟨he, own, hrep, htaken, hok, ⟨volname, hname, hvol⟩, hlive, hslot⟩ := new_volume hn hm ht hd hsec hl hf
  refine ⟨_, own, volname, he, ⟨own, hrep, fun _ => htaken⟩, hok, hname, hvol, hlive, ?_⟩
  rintro name ⟨k, -, hk, -⟩
  exact hk (hslot k)

/-- The argument `a:` on a disk of four blocks. -/
theorem mksfs_mounts_four :
    ∃ image t s own, mksfs 2048 ⟨[97, 58], by decide⟩ (fun _ => zeroBlock) = .ok (some image) ∧ t.disk = image ∧
      sfsDomount t = .ok (.ok (), s) ∧ VolOk (s.vol own) ∧ s.sfsSuper.spVolname = [97] := by
  obtain ⟨hiff, hmount⟩ := @mksfs_mounts 2048 ⟨[97, 58], by decide⟩ (fun _ => zeroBlock) (by decide)
  have hname : NamesVolume ⟨[97, 58], by decide⟩ ⟨[97], by decide⟩ := ⟨Or.inr rfl, by decide, by decide⟩
  obtain ⟨image, hm⟩ := hiff.mpr ⟨⟨_, hname, by decide⟩, by decide, by decide⟩
  obtain ⟨s, own, volname, he, -, hok, ⟨hv, hcolon, -⟩, hvol, -⟩ :=
    hmount image { oneBlock 0 zeroBlock with disk := image } hm rfl (show 4 ≤ 5 by decide) rfl rfl rfl
  refine ⟨image, _, s, own, hm, rfl, he, hok, hvol.trans ?_⟩
  rcases hv with hv | hv
  · exact absurd (hv ▸ (by decide : colon ∈ ([97, 58] : List UInt8))) hcolon
  · exact (List.append_cancel_right (show [97] ++ [colon] = volname.chars ++ [colon] from hv)).symm

end Os161
