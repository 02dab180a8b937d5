import Os161.SfsFs
import Os161.Volume

/-!
# Who owns a block

Every block of a volume has one owner: it is free, holds the superblock, the
free map or an inode, is an indirect block, or holds the data of a file.
`Owned own s` says that the free map, the inodes and the indirect blocks of
`s` agree with `own`, and that what is not dirty in memory is on disk.
-/

namespace Os161

open Bytes Proc

/-! ## Structures on disk -/

structure InodeFits (i : Inode) : Prop where
  size : i.sfiSize < 2 ^ 32
  type : i.sfiType < 2 ^ 16
  linkcount : i.sfiLinkcount < 2 ^ 16
  direct : ∀ k, i.sfiDirect k < 2 ^ 32
  indirect : i.sfiIndirect < 2 ^ 32

theorem readInode_inodeBlock {i : Inode} (h : InodeFits i) : readInode (inodeBlock i) = i := by
  have hdirect : ∀ k : Fin sfsNdirect, getBE (inodeBlock i) (8 + 4 * k) 4 = i.sfiDirect k := by
    intro k
    have hk : (k : Nat) < 15 := k.isLt
    rw [inodeBlock, getBE_putBE_of_disjoint (Or.inl (by omega)), getBE_putWords k.isLt]
    · exact dif_pos k.isLt
    · rw [dif_pos k.isLt]
      exact h.direct k
  have hsize : getBE (inodeBlock i) 0 4 = i.sfiSize := by
    rw [inodeBlock, getBE_putBE_of_disjoint (Or.inl (by decide)), getBE_putWords_of_disjoint (Or.inl (by decide)),
      getBE_putBE_of_disjoint (Or.inl (by decide)), getBE_putBE_of_disjoint (Or.inl (by decide)), getBE_putBE]
    exact Nat.mod_eq_of_lt h.size
  have htype : getBE (inodeBlock i) 4 2 = i.sfiType := by
    rw [inodeBlock, getBE_putBE_of_disjoint (Or.inl (by decide)), getBE_putWords_of_disjoint (Or.inl (by decide)),
      getBE_putBE_of_disjoint (Or.inl (by decide)), getBE_putBE]
    exact Nat.mod_eq_of_lt h.type
  have hlink : getBE (inodeBlock i) 6 2 = i.sfiLinkcount := by
    rw [inodeBlock, getBE_putBE_of_disjoint (Or.inl (by decide)), getBE_putWords_of_disjoint (Or.inl (by decide)),
      getBE_putBE]
    exact Nat.mod_eq_of_lt h.linkcount
  have hindirect : getBE (inodeBlock i) 68 4 = i.sfiIndirect := by
    rw [inodeBlock, getBE_putBE]
    exact Nat.mod_eq_of_lt h.indirect
  exact Inode.ext hsize htype hlink (funext hdirect) hindirect

theorem readWords_lt (b : Mem) (k : Nat) : readWords b k < 2 ^ 32 := getBE_lt

theorem readWords_wordsBlock {f : Nat → Nat} {k : Nat} (hk : k < sfsDbperidb) (hf : f k < 2 ^ 32) :
    readWords (wordsBlock f) k = f k := by
  have := @getBE_putWords zeroBlock 0 sfsDbperidb k f hk hf
  rwa [Nat.zero_add] at this

theorem getBE_zeroBlock (a w : Nat) : getBE zeroBlock a w = 0 := by
  induction w with
  | zero => rfl
  | succ w ih => simp [getBE, ih, zeroBlock]

theorem readWords_zeroBlock (k : Nat) : readWords zeroBlock k = 0 := getBE_zeroBlock _ _

/-! ## What a volume holds -/

def sfsMaxblocks : Nat := sfsNdirect + sfsDbperidb

def Inode.ptr (i : Inode) (disk : Nat → Mem) (n : Nat) : Nat :=
  if h : n < sfsNdirect then i.sfiDirect ⟨n, h⟩
  else if i.sfiIndirect = 0 then 0
  else readWords (disk i.sfiIndirect) (n - sfsNdirect)

namespace Sfs

def inode (s : Sfs) (i : Nat) : Inode :=
  match s.vnode i with
  | some sv => sv.svI
  | none => readInode (s.disk i)

def ptr (s : Sfs) (i n : Nat) : Nat := (s.inode i).ptr s.disk n

def byte (s : Sfs) (i o : Nat) : UInt8 :=
  if o < sfsMaxblocks * sfsBlocksize ∧ s.ptr i (o / sfsBlocksize) ≠ 0 then
    s.disk (s.ptr i (o / sfsBlocksize)) (o % sfsBlocksize)
  else 0

end Sfs

def Sfs.view (s : Sfs) (i : Nat) : FileView where
  size := (s.inode i).sfiSize
  type := (s.inode i).sfiType
  linkcount := (s.inode i).sfiLinkcount
  bytes := s.byte i

def Sfs.table (s : Sfs) : List (Nat × VnodeCounts) := s.sfsVnodes.map fun sv => (sv.svIno, sv.svV)

inductive BlockOwner
  | free
  | taken
  | system
  | inode
  | data (ino n : Nat)
  | indirect (ino : Nat)
  deriving DecidableEq, Repr

def SystemBlock (nblocks b : Nat) : Prop :=
  b = sfsSbLocation ∨ (sfsMapLocation ≤ b ∧ b < sfsMapLocation + sfsBitblocks nblocks) ∨ nblocks ≤ b

def diskBit (disk : Nat → Mem) (b : Nat) : Bool :=
  getBit (disk (sfsMapLocation + b / sfsBlockbits)) (b % sfsBlockbits)

structure InodeOk (i : Nat) (x : Inode) : Prop where
  size : x.sfiSize < 2 ^ 32
  type : x.sfiType = if i = sfsRootLocation then sfsTypeDir else sfsTypeFile
  linkcount : x.sfiLinkcount < 2 ^ 16

structure Owned (own : Nat → BlockOwner) (s : Sfs) : Prop where
  fits : sfsMapLocation + sfsBitblocks s.nblocks ≤ s.nblocks
  small : s.nblocks ≤ 2 ^ 22
  device : s.nblocks ≤ s.dBlocks
  sectors : s.dBlocksize = sfsBlocksize
  lossless : s.lost = []
  root : own sfsRootLocation = .inode
  marked : ∀ b < s.nbits, s.sfsFreemap b = true ↔ own b ≠ .free
  system : ∀ b, own b = .system ↔ SystemBlock s.nblocks b
  data : ∀ b i n, own b = .data i n ↔ own i = .inode ∧ n < sfsMaxblocks ∧ s.ptr i n = b ∧ b ≠ 0
  indirect : ∀ b i, own b = .indirect i ↔ own i = .inode ∧ (s.inode i).sfiIndirect = b ∧ b ≠ 0
  loaded : ∀ sv ∈ s.sfsVnodes, own sv.svIno = .inode
  nodup : (s.sfsVnodes.map SfsVnode.svIno).Nodup
  clean : ∀ sv ∈ s.sfsVnodes, sv.svDirty = false → readInode (s.disk sv.svIno) = sv.svI
  inodes : ∀ i, own i = .inode → InodeOk i (s.inode i)
  magic : s.sfsSuper.spMagic = sfsMagic
  super : readSuper (s.disk sfsSbLocation) = s.sfsSuper
  superdirty : s.sfsSuperdirty = false
  map : s.sfsFreemapdirty = false → ∀ b < s.nbits, diskBit s.disk b = s.sfsFreemap b

section
variable {own own' : Nat → BlockOwner} {s s' : Sfs} {b i j n o : Nat} {m : Mem} {sv : SfsVnode}

theorem le_sfsBitmapsize (n : Nat) : n ≤ sfsBitmapsize n := by
  unfold sfsBitmapsize
  rw [show sfsBlockbits = 4096 from rfl]
  omega

theorem Owned.size (h : Owned own s) (i : Nat) (hi : own i = .inode) : (s.inode i).sfiSize < 2 ^ 32 :=
  (h.inodes i hi).size

theorem Owned.type (h : Owned own s) (i : Nat) (hi : own i = .inode) :
    (s.inode i).sfiType = if i = sfsRootLocation then sfsTypeDir else sfsTypeFile := (h.inodes i hi).type

theorem Owned.linkcount (h : Owned own s) (i : Nat) (hi : own i = .inode) : (s.inode i).sfiLinkcount < 2 ^ 16 :=
  (h.inodes i hi).linkcount

theorem Owned.own_zero (h : Owned own s) : own 0 = .system := (h.system 0).mpr (Or.inl rfl)

theorem Owned.ne_zero (h : Owned own s) (hb : own b ≠ .system) : b ≠ 0 := fun e => hb (e ▸ h.own_zero)

theorem Owned.lt_nblocks (h : Owned own s) (hb : own b ≠ .system) : b < s.nblocks := by
  by_contra hge
  exact hb ((h.system b).mpr (Or.inr (Or.inr (Nat.le_of_not_lt hge))))

theorem Owned.lt_nbits (h : Owned own s) (hb : own b ≠ .system) : b < s.nbits :=
  Nat.lt_of_lt_of_le (h.lt_nblocks hb) (le_sfsBitmapsize _)

theorem Owned.lt_word (h : Owned own s) (hb : own b ≠ .system) : b < 2 ^ 32 := by
  have hlt := h.lt_nblocks hb
  have hsmall := h.small
  omega

theorem sectorOf_of_lt (hb : b < 2 ^ 22) : sectorOf b = b := by
  have hoff : diskoff b = (b : Int) * 512 := by
    unfold diskoff toOff u32 sfsBlocksize
    rw [if_pos (by omega)]
    omega
  unfold sectorOf toU32
  rw [hoff, sfsBlocksize, Nat.cast_ofNat, Int.mul_tdiv_cancel _ (by decide)]
  omega

/-- The byte offset of a block of the volume leads to its sector. -/
theorem Owned.sector (h : Owned own s) (hb : b < s.nblocks) : sectorOf b = b ∧ b < s.dBlocks :=
  ⟨sectorOf_of_lt (Nat.lt_of_lt_of_le hb h.small), Nat.lt_of_lt_of_le hb h.device⟩

theorem Owned.ptr_own (h : Owned own s) (hi : own i = .inode) (hn : n < sfsMaxblocks) (hp : s.ptr i n ≠ 0) :
    own (s.ptr i n) = .data i n := (h.data _ i n).mpr ⟨hi, hn, rfl, hp⟩

theorem Owned.indirect_own (h : Owned own s) (hi : own i = .inode) (hp : (s.inode i).sfiIndirect ≠ 0) :
    own (s.inode i).sfiIndirect = .indirect i := (h.indirect _ i).mpr ⟨hi, rfl, hp⟩

theorem vnode_inode (hv : s.vnode i = some sv) : s.inode i = sv.svI := by
  unfold Sfs.inode
  rw [hv]

theorem Owned.vnode_own (h : Owned own s) (hv : s.vnode i = some sv) : own i = .inode := by
  have := h.loaded sv (Table.get_mem hv)
  rwa [Table.get_key hv] at this

theorem Owned.inodeFits (h : Owned own s) (hi : own i = .inode) : InodeFits (s.inode i) := by
  refine ⟨h.size i hi, ?_, h.linkcount i hi, fun k => ?_, ?_⟩
  · rw [h.type i hi]
    split <;> decide
  · by_cases hz : (s.inode i).sfiDirect k = 0
    · rw [hz]
      decide
    · have hp : s.ptr i k = (s.inode i).sfiDirect k := dif_pos k.isLt
      have hk : (k : Nat) < sfsMaxblocks := Nat.lt_of_lt_of_le k.isLt (Nat.le_add_right _ _)
      have hown := h.ptr_own hi hk (by rwa [hp])
      rw [hp] at hown
      exact h.lt_word (by rw [hown]; simp)
  · by_cases hz : (s.inode i).sfiIndirect = 0
    · rw [hz]
      decide
    · exact h.lt_word (by rw [h.indirect_own hi hz]; simp)

def Sfs.rest (s : Sfs) : Sfs := { s with faults := s.faults.tail }

theorem Owned.rest (h : Owned own s) : Owned own s.rest := { h with }

/-! ## Writing a block -/

def Sfs.write (s : Sfs) (b : Nat) (m : Mem) : Sfs :=
  { s with disk := Function.update s.disk b m, writes := s.writes + 1 }

theorem Inode.ptr_congr {d : Inode} {disk disk' : Nat → Mem}
    (h : d.sfiIndirect ≠ 0 → disk' d.sfiIndirect = disk d.sfiIndirect) : d.ptr disk' n = d.ptr disk n := by
  unfold Inode.ptr
  split
  · rfl
  split
  · rfl
  · rename_i hz
    rw [h hz]

theorem inode_write (hb : b ≠ i ∨ s.vnode i ≠ none) : (s.write b m).inode i = s.inode i := by
  have hv : (s.write b m).vnode i = s.vnode i := rfl
  unfold Sfs.inode
  rw [hv]
  cases hs : s.vnode i with
  | some sv => rfl
  | none =>
    have hne : i ≠ b := by
      rcases hb with hb | hb
      · exact hb.symm
      · exact absurd hs hb
    simp only [Sfs.write, Function.update_of_ne hne]

theorem Owned.ptr_write (h : Owned own s) (hi : own i = .inode) (hin : (s.write b m).inode i = s.inode i)
    (hb : own b ≠ .indirect i) : (s.write b m).ptr i n = s.ptr i n := by
  unfold Sfs.ptr
  rw [hin]
  refine Inode.ptr_congr fun hz => ?_
  have hne : (s.inode i).sfiIndirect ≠ b := fun e => hb (e ▸ h.indirect_own hi hz)
  exact Function.update_of_ne hne _ _

theorem mapBlock_system {n c : Nat} (hc : c < sfsBitmapsize n) : SystemBlock n (sfsMapLocation + c / sfsBlockbits) := by
  refine Or.inr (Or.inl ⟨Nat.le_add_right _ _, Nat.add_lt_add_left ?_ _⟩)
  have hbits : sfsBlockbits = 4096 := rfl
  have hdvd : sfsBitmapsize n = sfsBitblocks n * sfsBlockbits := by
    unfold sfsBitblocks sfsBitmapsize
    rw [Nat.mul_div_cancel _ (by decide)]
  rw [hdvd, hbits] at hc
  rw [hbits]
  omega

theorem Owned.map_congr (h : Owned own s) {disk : Nat → Mem} (hd : ∀ c, SystemBlock s.nblocks c → disk c = s.disk c)
    (hclean : s.sfsFreemapdirty = false) (hb : b < s.nbits) : diskBit disk b = s.sfsFreemap b := by
  rw [← h.map hclean b hb, diskBit, diskBit, hd _ (mapBlock_system hb)]

/-- The same files, with other vnodes in memory or in other places on the disk. -/
structure SameFiles (own : Nat → BlockOwner) (s s' : Sfs) : Prop where
  super : s'.sfsSuper = s.sfsSuper
  device : s'.dBlocks = s.dBlocks ∧ s'.dBlocksize = s.dBlocksize ∧ s'.lost = s.lost
  inode : ∀ i, own i = .inode → s'.inode i = s.inode i
  marks : ∀ b < s.nbits, s'.sfsFreemap b = s.sfsFreemap b
  vnodes : ∀ sv ∈ s'.sfsVnodes, own sv.svIno = .inode ∧ (sv.svDirty = false → readInode (s'.disk sv.svIno) = sv.svI)
  nodup : (s'.sfsVnodes.map SfsVnode.svIno).Nodup
  superblock : s'.disk sfsSbLocation = s.disk sfsSbLocation
  superdirty : s'.sfsSuperdirty = false
  map : s'.sfsFreemapdirty = false → ∀ b < s.nbits, diskBit s'.disk b = s.sfsFreemap b

theorem Owned.image (h : Owned own s) (hs : SameFiles own s s')
    (hptr : ∀ i n, own i = .inode → s'.ptr i n = s.ptr i n) : Owned own s' := by
  have hnb : s'.nblocks = s.nblocks := by unfold Sfs.nblocks; rw [hs.super]
  have hbits : s'.nbits = s.nbits := by unfold Sfs.nbits; rw [hnb]
  refine ⟨by rw [hnb]; exact h.fits, by rw [hnb]; exact h.small, by rw [hnb, hs.device.1]; exact h.device,
    hs.device.2.1.trans h.sectors, hs.device.2.2.trans h.lossless, h.root, fun b hb => ?_,
    fun b => by rw [hnb]; exact h.system b, fun b i n => ?_, fun b i => ?_,
    fun sv hsv => (hs.vnodes sv hsv).1, hs.nodup, fun sv hsv => (hs.vnodes sv hsv).2, fun i hi => ?_,
    by rw [hs.super]; exact h.magic,
    by rw [hs.superblock, hs.super]; exact h.super, hs.superdirty, fun hd b hb => ?_⟩
  · rw [hbits] at hb
    rw [hs.marks b hb]
    exact h.marked b hb
  · rw [h.data]
    exact and_congr_right fun hi => by rw [hptr i n hi]
  · rw [h.indirect]
    exact and_congr_right fun hi => by rw [hs.inode i hi]
  · rw [hs.inode i hi]
    exact h.inodes i hi
  · rw [hbits] at hb
    rw [hs.map hd b hb, hs.marks b hb]

theorem Owned.write (h : Owned own s) (hb : own b ≠ .inode) (hbi : ∀ j, own b ≠ .indirect j) (hs : own b ≠ .system) :
    Owned own (s.write b m) := by
  have hin : ∀ i, own i = .inode → (s.write b m).inode i = s.inode i := fun i hi =>
    inode_write (Or.inl fun e => hb (e ▸ hi))
  have hdisk : ∀ c, c ≠ b → (s.write b m).disk c = s.disk c := fun c hc => Function.update_of_ne hc _ _
  have hsys : ∀ c, SystemBlock s.nblocks c → (s.write b m).disk c = s.disk c := fun c hc =>
    hdisk c fun e => hs (e ▸ (h.system c).mpr hc)
  refine h.image ⟨rfl, ⟨rfl, rfl, rfl⟩, hin, fun _ _ => rfl, fun sv hsv => ⟨h.loaded sv hsv, fun hd => ?_⟩, h.nodup,
    hsys _ (Or.inl rfl), h.superdirty, fun hd c hc => h.map_congr hsys hd hc⟩ fun i n hi =>
      h.ptr_write hi (hin i hi) (hbi i)
  rw [hdisk _ fun e => hb (e ▸ h.loaded sv hsv)]
  exact h.clean sv hsv hd

/-! ## Marking blocks -/

def Sfs.setMark (s : Sfs) (b : Nat) (v : Bool) : Sfs :=
  { s with sfsFreemap := Function.update s.sfsFreemap b v, sfsFreemapdirty := true }

theorem Owned.relabel {x : BlockOwner} {v : Bool} (h : Owned own s) (hb : own b = .free ∨ own b = .taken)
    (hx : x = .free ∧ v = false ∨ x = .taken ∧ v = true) : Owned (Function.update own b x) (s.setMark b v) := by
  have hsame : ∀ c y, y ≠ .free → y ≠ .taken → (Function.update own b x c = y ↔ own c = y) := by
    intro c y hf ht
    by_cases hc : c = b
    · subst hc
      rw [Function.update_self]
      constructor
      · rintro rfl
        rcases hx with ⟨hx, -⟩ | ⟨hx, -⟩
        · exact absurd hx hf
        · exact absurd hx ht
      · rintro rfl
        rcases hb with hb | hb
        · exact absurd hb hf
        · exact absurd hb ht
    · rw [Function.update_of_ne hc]
  have hinode : ∀ c, Function.update own b x c = .inode ↔ own c = .inode := fun c => hsame c _ (by simp) (by simp)
  exact { h with
    root := (hinode _).mpr h.root
    marked := fun c hc => by
      by_cases hcb : c = b
      · subst hcb
        simp only [Sfs.setMark, Function.update_self]
        rcases hx with ⟨rfl, rfl⟩ | ⟨rfl, rfl⟩ <;> simp
      · simp only [Sfs.setMark, Function.update_of_ne hcb]
        exact h.marked c hc
    system := fun c => (hsame c .system (by simp) (by simp)).trans (h.system c)
    data := fun c i n => by
      rw [hsame c (.data i n) (by simp) (by simp), hinode, h.data]
      rfl
    indirect := fun c i => by
      rw [hsame c (.indirect i) (by simp) (by simp), hinode, h.indirect]
      rfl
    loaded := fun sv hsv => (hinode _).mpr (h.loaded sv hsv)
    inodes := fun i hi => h.inodes i ((hinode i).mp hi)
    map := fun hd => absurd hd (by simp [Sfs.setMark]) }

/-! ## Changing a vnode -/

variable {f : SfsVnode → SfsVnode}

theorem vnode_modifySv (hf : ∀ x, (f x).svIno = x.svIno) (hv : s.vnode i = some sv) :
    (s.modifySv i f).vnode i = some (f sv) := by
  have := @Table.get_modify_self _ SfsVnode.svIno s.sfsVnodes i f hf
  unfold Sfs.vnode at hv ⊢
  rw [hv] at this
  exact this

theorem vnode_modifySv_of_ne (hf : ∀ x, (f x).svIno = x.svIno) (hj : j ≠ i) : (s.modifySv i f).vnode j = s.vnode j :=
  Table.get_modify_of_ne hf hj

theorem inode_modifySv (hf : ∀ x, (f x).svIno = x.svIno) (hv : s.vnode i = some sv) :
    (s.modifySv i f).inode i = (f sv).svI := vnode_inode (vnode_modifySv hf hv)

theorem inode_modifySv_of_ne (hf : ∀ x, (f x).svIno = x.svIno) (hj : j ≠ i) :
    (s.modifySv i f).inode j = s.inode j := by
  unfold Sfs.inode
  rw [vnode_modifySv_of_ne hf hj]
  rfl

theorem Owned.changeSv (h : Owned own s) (hf : ∀ x, (f x).svIno = x.svIno) (hv : s.vnode i = some sv)
    (hlive : ∀ j, own' j = .inode ↔ own j = .inode)
    (hmarked : ∀ c < s.nbits, s.sfsFreemap c = true ↔ own' c ≠ .free)
    (hsystem : ∀ c, own' c = .system ↔ SystemBlock s.nblocks c)
    (hdata : ∀ c j n, own' c = .data j n ↔
      own' j = .inode ∧ n < sfsMaxblocks ∧ (s.modifySv i f).ptr j n = c ∧ c ≠ 0)
    (hindirect : ∀ c j, own' c = .indirect j ↔
      own' j = .inode ∧ ((s.modifySv i f).inode j).sfiIndirect = c ∧ c ≠ 0)
    (hsize : (f sv).svI.sfiSize < 2 ^ 32) (htype : (f sv).svI.sfiType = sv.svI.sfiType)
    (hlink : (f sv).svI.sfiLinkcount < 2 ^ 16)
    (hclean : (f sv).svDirty = false → readInode (s.disk i) = (f sv).svI) : Owned own' (s.modifySv i f) := by
  have hkey : sv.svIno = i := Table.get_key hv
  have hself : (s.modifySv i f).inode i = (f sv).svI := inode_modifySv hf hv
  have hother : ∀ j, j ≠ i → (s.modifySv i f).inode j = s.inode j := fun j hj => inode_modifySv_of_ne hf hj
  have hmem : ∀ x ∈ (s.modifySv i f).sfsVnodes, x = f sv ∨ x ∈ s.sfsVnodes := fun x hx =>
    ((Table.mem_modify h.nodup hv).mp hx).imp_right And.left
  exact { h with
    root := (hlive _).mpr h.root
    marked := hmarked
    system := hsystem
    data := hdata
    indirect := hindirect
    loaded := fun x hx => (hlive _).mpr <| by
      rcases hmem x hx with rfl | hx
      · rw [hf, hkey]
        exact h.vnode_own hv
      · exact h.loaded x hx
    nodup := by
      have := @Table.map_modify _ SfsVnode.svIno s.sfsVnodes i f _ SfsVnode.svIno fun x _ _ => hf x
      exact this ▸ h.nodup
    clean := fun x hx hd => by
      rcases hmem x hx with rfl | hx
      · rw [hf, hkey]
        exact hclean hd
      · exact h.clean x hx hd
    inodes := fun j hj => by
      by_cases hji : j = i
      · rw [hji, hself]
        refine ⟨hsize, ?_, hlink⟩
        rw [htype, ← vnode_inode hv]
        exact h.type i (h.vnode_own hv)
      · rw [hother j hji]
        exact h.inodes j ((hlive j).mp hj) }

theorem Owned.modifySv (h : Owned own s) (hf : ∀ x, (f x).svIno = x.svIno) (hv : s.vnode i = some sv)
    (hd : (f sv).svI.sfiDirect = sv.svI.sfiDirect) (hid : (f sv).svI.sfiIndirect = sv.svI.sfiIndirect)
    (hsize : (f sv).svI.sfiSize < 2 ^ 32) (htype : (f sv).svI.sfiType = sv.svI.sfiType)
    (hlink : (f sv).svI.sfiLinkcount < 2 ^ 16)
    (hclean : (f sv).svDirty = false → readInode (s.disk i) = (f sv).svI) :
    Owned own (s.modifySv i f) ∧ ∀ j n, (s.modifySv i f).ptr j n = s.ptr j n := by
  have hself : (s.modifySv i f).inode i = (f sv).svI := inode_modifySv hf hv
  have hother : ∀ j, j ≠ i → (s.modifySv i f).inode j = s.inode j := fun j hj => inode_modifySv_of_ne hf hj
  have hind : ∀ j, ((s.modifySv i f).inode j).sfiIndirect = (s.inode j).sfiIndirect := fun j => by
    by_cases hj : j = i
    · rw [hj, hself, hid, vnode_inode hv]
    · rw [hother j hj]
  have hptr : ∀ j n, (s.modifySv i f).ptr j n = s.ptr j n := fun j n => by
    by_cases hj : j = i
    · simp only [Sfs.ptr, hj, hself, vnode_inode hv, Inode.ptr, hd, hid]
      rfl
    · simp only [Sfs.ptr, hother j hj]
      rfl
  refine ⟨h.changeSv hf hv (fun _ => Iff.rfl) h.marked h.system (fun c j n => ?_)
    (fun c j => ?_) hsize htype hlink hclean, hptr⟩
  · rw [hptr]
    exact h.data c j n
  · rw [hind]
    exact h.indirect c j

/-! ## Attaching a block -/

theorem update_inode_iff {x : BlockOwner} (hb : own b ≠ .inode) (hx : x ≠ .inode) :
    Function.update own b x i = .inode ↔ own i = .inode := by
  by_cases hi : i = b
  · subst hi
    rw [Function.update_self]
    exact ⟨fun e => absurd e hx, fun e => absurd e hb⟩
  · rw [Function.update_of_ne hi]

theorem Owned.use {x : BlockOwner} (h : Owned own s) (hb : own b = .taken) (hf : x ≠ .free) (hs : x ≠ .system) :
    (∀ c < s.nbits, s.sfsFreemap c = true ↔ Function.update own b x c ≠ .free) ∧
      ∀ c, Function.update own b x c = .system ↔ SystemBlock s.nblocks c := by
  refine ⟨fun c hc => ?_, fun c => ?_⟩
  · rw [h.marked c hc]
    by_cases hcb : c = b
    · subst hcb
      rw [Function.update_self, hb]
      exact ⟨fun _ => hf, fun _ => by simp⟩
    · rw [Function.update_of_ne hcb]
  · rw [← h.system c]
    by_cases hcb : c = b
    · subst hcb
      rw [Function.update_self, hb]
      exact ⟨fun e => absurd e hs, by simp⟩
    · rw [Function.update_of_ne hcb]

theorem Owned.data_attach (h : Owned own s) (hb : own b = .taken) (hi : own i = .inode) (hn : n < sfsMaxblocks)
    (hz : s.ptr i n = 0)
    (hptr : ∀ j k, own j = .inode → k < sfsMaxblocks → s'.ptr j k = if j = i ∧ k = n then b else s.ptr j k)
    (c j k : Nat) :
    Function.update own b (.data i n) c = .data j k ↔
      Function.update own b (.data i n) j = .inode ∧ k < sfsMaxblocks ∧ s'.ptr j k = c ∧ c ≠ 0 := by
  have hb0 : b ≠ 0 := h.ne_zero (by rw [hb]; simp)
  have hlive : Function.update own b (.data i n) j = .inode ↔ own j = .inode :=
    update_inode_iff (by rw [hb]; simp) (by simp)
  rw [hlive]
  by_cases hcb : c = b
  · subst hcb
    rw [Function.update_self]
    constructor
    · intro e
      obtain ⟨rfl, rfl⟩ : i = j ∧ n = k := by simpa using e
      refine ⟨hi, hn, ?_, hb0⟩
      rw [hptr i n hi hn, if_pos ⟨rfl, rfl⟩]
    · rintro ⟨hj, hk, hp, -⟩
      rw [hptr j k hj hk] at hp
      by_cases he : j = i ∧ k = n
      · rw [he.1, he.2]
      · rw [if_neg he] at hp
        have := h.ptr_own hj hk (by rw [hp]; exact hb0)
        rw [hp, hb] at this
        cases this
  · rw [Function.update_of_ne hcb, h.data]
    refine and_congr_right fun hj => and_congr_right fun hk => ?_
    rw [hptr j k hj hk]
    by_cases he : j = i ∧ k = n
    · rw [if_pos he, he.1, he.2, hz]
      exact ⟨fun e => absurd e.1.symm e.2, fun e => absurd e.1.symm hcb⟩
    · rw [if_neg he]

theorem Owned.indirect_keep {x : BlockOwner} (h : Owned own s) (hb : own b = .taken) (hx : ∀ j, x ≠ .indirect j)
    (hxi : x ≠ .inode) (hind : ∀ j, own j = .inode → (s'.inode j).sfiIndirect = (s.inode j).sfiIndirect) (c j : Nat) :
    Function.update own b x c = .indirect j ↔
      Function.update own b x j = .inode ∧ (s'.inode j).sfiIndirect = c ∧ c ≠ 0 := by
  rw [update_inode_iff (by rw [hb]; simp) hxi]
  by_cases hcb : c = b
  · subst hcb
    rw [Function.update_self]
    refine ⟨fun e => absurd e (hx j), ?_⟩
    rintro ⟨hj, hp, hc⟩
    rw [hind j hj] at hp
    have := h.indirect_own hj (by rwa [hp])
    rw [hp, hb] at this
    cases this
  · rw [Function.update_of_ne hcb, h.indirect]
    exact and_congr_right fun hj => by rw [hind j hj]

theorem setDirect_ptr {d : Inode} {disk : Nat → Mem} {k : Fin sfsNdirect} :
    (d.setDirect k b).ptr disk n = if n = k then b else d.ptr disk n := by
  unfold Inode.ptr Inode.setDirect
  by_cases hn : n < sfsNdirect
  · by_cases hk : n = k
    · subst hk
      simp [Function.update_self]
    · have : (⟨n, hn⟩ : Fin sfsNdirect) ≠ k := fun e => hk (by rw [← e])
      simp [hn, hk, Function.update_of_ne this]
  · have : n ≠ k := fun e => hn (e ▸ k.isLt)
    simp [hn, this]

def SfsVnode.addDirect (k : Fin sfsNdirect) (b : Nat) (sv : SfsVnode) : SfsVnode :=
  { sv with svI := sv.svI.setDirect k b, svDirty := true }

theorem Owned.attachDirect (h : Owned own s) (hv : s.vnode i = some sv) (hb : own b = .taken) {k : Fin sfsNdirect}
    (hz : sv.svI.sfiDirect k = 0) :
    Owned (Function.update own b (.data i k)) (s.modifySv i (SfsVnode.addDirect k b)) ∧
      ∀ j n, (s.modifySv i (SfsVnode.addDirect k b)).ptr j n = if j = i ∧ n = k then b else s.ptr j n := by
  have hf : ∀ x, (SfsVnode.addDirect k b x).svIno = x.svIno := fun _ => rfl
  have hi := h.vnode_own hv
  have hself : (s.modifySv i (SfsVnode.addDirect k b)).inode i = sv.svI.setDirect k b := inode_modifySv hf hv
  have hother : ∀ j, j ≠ i → (s.modifySv i (SfsVnode.addDirect k b)).inode j = s.inode j := fun j hj =>
    inode_modifySv_of_ne hf hj
  have hptr : ∀ j n, (s.modifySv i (SfsVnode.addDirect k b)).ptr j n = if j = i ∧ n = k then b else s.ptr j n := by
    intro j n
    by_cases hj : j = i
    · simp only [Sfs.ptr, hj, hself, setDirect_ptr, true_and, vnode_inode hv]
      rfl
    · simp only [Sfs.ptr, hother j hj, hj, false_and, if_false]
      rfl
  have hind : ∀ j, ((s.modifySv i (SfsVnode.addDirect k b)).inode j).sfiIndirect = (s.inode j).sfiIndirect :=
      fun j => by
    by_cases hj : j = i
    · rw [hj, hself, vnode_inode hv]
      rfl
    · rw [hother j hj]
  have hk : (k : Nat) < sfsMaxblocks := Nat.lt_of_lt_of_le k.isLt (Nat.le_add_right _ _)
  have hz' : s.ptr i k = 0 := by
    rw [Sfs.ptr, vnode_inode hv]
    exact (dif_pos k.isLt).trans hz
  have hfits := h.inodeFits hi
  rw [vnode_inode hv] at hfits
  obtain ⟨hmarked, hsystem⟩ := h.use (x := .data i k) hb (by simp) (by simp)
  exact ⟨h.changeSv hf hv (fun j => update_inode_iff (by rw [hb]; simp) (by simp)) hmarked hsystem
    (h.data_attach hb hi hk hz' fun j n _ _ => hptr j n)
    (h.indirect_keep hb (by simp) (by simp) fun j _ => hind j) hfits.size rfl
    hfits.linkcount (fun e => by cases e), hptr⟩

def SfsVnode.addIndirect (b : Nat) (sv : SfsVnode) : SfsVnode :=
  { sv with svI := { sv.svI with sfiIndirect := b }, svDirty := true }

theorem Owned.attachIndirect (h : Owned own s) (hv : s.vnode i = some sv) (hb : own b = .taken)
    (hz : sv.svI.sfiIndirect = 0) (hdisk : s.disk b = zeroBlock) :
    Owned (Function.update own b (.indirect i)) (s.modifySv i (SfsVnode.addIndirect b)) ∧
      ∀ j n, (s.modifySv i (SfsVnode.addIndirect b)).ptr j n = s.ptr j n := by
  have hf : ∀ x, (SfsVnode.addIndirect b x).svIno = x.svIno := fun _ => rfl
  have hi := h.vnode_own hv
  have hb0 : b ≠ 0 := h.ne_zero (by rw [hb]; simp)
  have hself : (s.modifySv i (SfsVnode.addIndirect b)).inode i = { sv.svI with sfiIndirect := b } :=
    inode_modifySv hf hv
  have hother : ∀ j, j ≠ i → (s.modifySv i (SfsVnode.addIndirect b)).inode j = s.inode j := fun j hj =>
    inode_modifySv_of_ne hf hj
  have hptr : ∀ j n, (s.modifySv i (SfsVnode.addIndirect b)).ptr j n = s.ptr j n := by
    intro j n
    by_cases hj : j = i
    · have hd : (s.modifySv i (SfsVnode.addIndirect b)).disk = s.disk := rfl
      rw [Sfs.ptr, Sfs.ptr, hj, hself, hd, vnode_inode hv]
      simp only [Inode.ptr, hz, hb0, hdisk, readWords_zeroBlock, if_true, if_false]
    · simp only [Sfs.ptr, hother j hj]
      rfl
  have hlive : ∀ j, Function.update own b (.indirect i) j = .inode ↔ own j = .inode := fun j =>
    update_inode_iff (by rw [hb]; simp) (by simp)
  have hfits := h.inodeFits hi
  rw [vnode_inode hv] at hfits
  obtain ⟨hmarked, hsystem⟩ := h.use (x := .indirect i) hb (by simp) (by simp)
  refine ⟨h.changeSv hf hv hlive hmarked hsystem (fun c j n => ?_) (fun c j => ?_) hfits.size rfl hfits.linkcount
    (fun e => by cases e), hptr⟩
  · rw [hlive, hptr]
    by_cases hcb : c = b
    · subst hcb
      have hno := h.data c j n
      rw [hb] at hno
      rw [Function.update_self]
      exact ⟨by simp, fun e => absurd (hno.mpr e) (by simp)⟩
    · rw [Function.update_of_ne hcb]
      exact h.data c j n
  · rw [hlive]
    by_cases hcb : c = b
    · subst hcb
      rw [Function.update_self]
      constructor
      · intro e
        obtain rfl : i = j := by simpa using e
        exact ⟨hi, by rw [hself], hb0⟩
      · rintro ⟨hj, hp, -⟩
        by_cases hji : j = i
        · rw [hji]
        · rw [hother j hji] at hp
          have := h.indirect_own hj (by rwa [hp])
          rw [hp, hb] at this
          cases this
    · rw [Function.update_of_ne hcb, h.indirect]
      refine and_congr_right fun hj => ?_
      by_cases hji : j = i
      · rw [hji, hself, vnode_inode hv, hz]
        exact ⟨fun e => absurd e.1.symm e.2, fun e => absurd e.1.symm hcb⟩
      · rw [hother j hji]

theorem Owned.attachEntry (h : Owned own s) (hi : own i = .inode) (hid : (s.inode i).sfiIndirect ≠ 0)
    (hb : own b = .taken) {k : Nat} (hk : k < sfsDbperidb) (hz : s.ptr i (sfsNdirect + k) = 0) {g : Nat → Nat}
    (hg : ∀ l < sfsDbperidb, g l = if l = k then b else readWords (s.disk (s.inode i).sfiIndirect) l) :
    Owned (Function.update own b (.data i (sfsNdirect + k))) (s.write (s.inode i).sfiIndirect (wordsBlock g)) ∧
      ∀ j n, own j = .inode → n < sfsMaxblocks →
        (s.write (s.inode i).sfiIndirect (wordsBlock g)).ptr j n =
          if j = i ∧ n = sfsNdirect + k then b else s.ptr j n := by
  have hown := h.indirect_own hi hid
  generalize hc : (s.inode i).sfiIndirect = c at *
  have hin : ∀ j, own j = .inode → (s.write c (wordsBlock g)).inode j = s.inode j := fun j hj =>
    inode_write (Or.inl fun e => by rw [e, hj] at hown; cases hown)
  have hdisk : ∀ d, d ≠ c → (s.write c (wordsBlock g)).disk d = s.disk d := fun d hd => Function.update_of_ne hd _ _
  have hb32 : b < 2 ^ 32 := h.lt_word (by rw [hb]; simp)
  have hptr : ∀ j n, own j = .inode → n < sfsMaxblocks →
      (s.write c (wordsBlock g)).ptr j n = if j = i ∧ n = sfsNdirect + k then b else s.ptr j n := by
    intro j n hj hn
    by_cases hji : j = i
    · subst hji
      have hnew : (s.write c (wordsBlock g)).disk c = wordsBlock g := Function.update_self _ _ _
      simp only [Sfs.ptr, hin j hj, Inode.ptr, hc, hid, if_false, hnew, true_and]
      by_cases hlt : n < sfsNdirect
      · rw [dif_pos hlt, dif_pos hlt, if_neg (by omega)]
      · have hl : n - sfsNdirect < sfsDbperidb := by
          have : n < sfsNdirect + sfsDbperidb := hn
          omega
        rw [dif_neg hlt, dif_neg hlt, readWords_wordsBlock hl, hg _ hl]
        · by_cases he : n = sfsNdirect + k
          · rw [if_pos he, if_pos (by omega)]
          · rw [if_neg he, if_neg (by omega)]
        · rw [hg _ hl]
          split
          · exact hb32
          · exact readWords_lt _ _
    · rw [if_neg fun e => hji e.1]
      exact h.ptr_write hj (hin j hj) fun e => hji (by rw [hown] at e; exact (BlockOwner.indirect.inj e).symm)
  have hlive : ∀ j, Function.update own b (.data i (sfsNdirect + k)) j = .inode ↔ own j = .inode := fun j =>
    update_inode_iff (by rw [hb]; simp) (by simp)
  have hsys : ∀ d, SystemBlock s.nblocks d → (s.write c (wordsBlock g)).disk d = s.disk d := fun d hd =>
    hdisk d fun e => by
      have := (h.system d).mpr hd
      rw [e, hown] at this
      cases this
  obtain ⟨hmarked, hsystem⟩ := h.use (x := .data i (sfsNdirect + k)) hb (by simp) (by simp)
  exact ⟨{ h with
    root := (hlive _).mpr h.root
    marked := hmarked
    system := hsystem
    data := h.data_attach hb hi (Nat.add_lt_add_left hk _) hz hptr
    indirect := h.indirect_keep hb (by simp) (by simp) fun j hj => by rw [hin j hj]
    loaded := fun sv hsv => (hlive _).mpr (h.loaded sv hsv)
    clean := fun sv hsv hd => by
      rw [hdisk _ fun e => by
        have := h.loaded sv hsv
        rw [e, hown] at this
        cases this]
      exact h.clean sv hsv hd
    inodes := fun j hj => by
      rw [hin j ((hlive j).mp hj)]
      exact h.inodes j ((hlive j).mp hj)
    super := by
      rw [hsys _ (Or.inl rfl)]
      exact h.super
    map := fun hd d hd' => h.map_congr hsys hd hd' }, hptr⟩

/-! ## Bytes of files -/

theorem byte_congr (hptr : ∀ n < sfsMaxblocks, s'.ptr j n = s.ptr j n)
    (hdisk : ∀ n < sfsMaxblocks, s.ptr j n ≠ 0 → s'.disk (s.ptr j n) = s.disk (s.ptr j n)) :
    s'.byte j = s.byte j := by
  funext o
  unfold Sfs.byte
  by_cases ho : o < sfsMaxblocks * sfsBlocksize
  · have hn : o / sfsBlocksize < sfsMaxblocks := Nat.div_lt_of_lt_mul (by rwa [Nat.mul_comm] at ho)
    rw [hptr _ hn]
    by_cases hz : s.ptr j (o / sfsBlocksize) = 0
    · simp [hz]
    · rw [if_pos ⟨ho, hz⟩, if_pos ⟨ho, hz⟩, hdisk _ hn hz]
  · rw [if_neg fun e => ho e.1, if_neg fun e => ho e.1]

theorem byte_attach (hz : s.ptr i n = 0) (hb : s'.disk b = zeroBlock)
    (hptr : ∀ k < sfsMaxblocks, s'.ptr i k = if k = n then b else s.ptr i k)
    (hdisk : ∀ k < sfsMaxblocks, s.ptr i k ≠ 0 → s'.disk (s.ptr i k) = s.disk (s.ptr i k)) :
    s'.byte i = s.byte i := by
  funext o
  unfold Sfs.byte
  by_cases ho : o < sfsMaxblocks * sfsBlocksize
  · have hn : o / sfsBlocksize < sfsMaxblocks := Nat.div_lt_of_lt_mul (by rwa [Nat.mul_comm] at ho)
    rw [hptr _ hn]
    by_cases he : o / sfsBlocksize = n
    · rw [if_pos he, he, hz, hb]
      simp [zeroBlock]
    · rw [if_neg he]
      by_cases hp : s.ptr i (o / sfsBlocksize) = 0
      · simp [hp]
      · rw [if_pos ⟨ho, hp⟩, if_pos ⟨ho, hp⟩, hdisk _ hn hp]
  · rw [if_neg fun e => ho e.1, if_neg fun e => ho e.1]

theorem view_congr (hi : s'.inode j = s.inode j) (hb : s'.byte j = s.byte j) : s'.view j = s.view j := by
  simp only [Sfs.view, hi, hb]

end

/-! ## A file of one block -/

def oneBlock (size : Nat) (m : Mem) : Sfs where
  disk := Function.update (Function.update (fun _ => superBlock
    { spMagic := sfsMagic, spNblocks := 5, spVolname := [] }) sfsRootLocation (inodeBlock rootInode)) 4 m
  dBlocks := 5
  dBlocksize := sfsBlocksize
  sfsSuper := { spMagic := sfsMagic, spNblocks := 5, spVolname := [] }
  sfsSuperdirty := false
  sfsVnodes := [{
    svV := { vnRefcount := 1, vnOpencount := 1 }
    svI := {
      sfiSize := size
      sfiType := sfsTypeFile
      sfiLinkcount := 1
      sfiDirect := fun k => if k.val = 0 then 4 else 0
      sfiIndirect := 0 }
    svIno := 3
    svDirty := true }]
  sfsFreemap _ := true
  sfsFreemapdirty := true
  faults := []
  lost := []
  writes := 0

def oneOwner (b : Nat) : BlockOwner :=
  if b = sfsRootLocation ∨ b = 3 then .inode else if b = 4 then .data 3 0 else .system

section
variable {size i b n : Nat} {m : Mem}

theorem oneOwner_inode : oneOwner i = .inode ↔ i = sfsRootLocation ∨ i = 3 := by
  unfold oneOwner
  split
  · simp_all
  · split <;> simp_all

theorem oneBlock_inode_root : (oneBlock size m).inode sfsRootLocation = rootInode :=
  readInode_inodeBlock ⟨by decide, by decide, by decide, fun _ => show 0 < 2 ^ 32 by decide, by decide⟩

theorem oneBlock_indirect (hi : oneOwner i = .inode) : ((oneBlock size m).inode i).sfiIndirect = 0 := by
  rcases oneOwner_inode.mp hi with rfl | rfl
  · rw [oneBlock_inode_root]
    rfl
  · rfl

theorem oneBlock_ptr (hi : oneOwner i = .inode) : (oneBlock size m).ptr i n = if i = 3 ∧ n = 0 then 4 else 0 := by
  rw [Sfs.ptr, Inode.ptr, oneBlock_indirect hi, if_pos rfl]
  rcases oneOwner_inode.mp hi with rfl | rfl
  · rw [oneBlock_inode_root]
    simp [rootInode, sfsRootLocation]
  · by_cases hn : n < sfsNdirect
    · rw [dif_pos hn]
      simp [Sfs.inode, Sfs.vnode, Table.get, oneBlock]
    · have h0 : ¬ n = 0 := fun e => hn (e ▸ by decide)
      simp [hn, h0]

theorem oneBlock_owned (hsize : size < 2 ^ 32) : Owned oneOwner (oneBlock size m) := by
  have hbits : sfsBitblocks 5 = 1 := by decide
  have hsuper : readSuper (superBlock { spMagic := sfsMagic, spNblocks := 5, spVolname := [] }) =
      { spMagic := sfsMagic, spNblocks := 5, spVolname := [] } := by
    simp only [readSuper, Super.mk.injEq]
    decide
  constructor
  case fits => exact show 2 + sfsBitblocks 5 ≤ 5 by decide
  case small => exact show 5 ≤ 2 ^ 22 by decide
  case device => exact Nat.le_refl _
  case sectors => rfl
  case lossless => rfl
  case root => rfl
  case marked =>
    intro b _
    refine ⟨fun _ => ?_, fun _ => rfl⟩
    unfold oneOwner
    split
    · simp
    · split <;> simp
  case system =>
    intro b
    show _ ↔ SystemBlock 5 b
    unfold SystemBlock oneOwner
    rw [hbits]
    unfold sfsRootLocation sfsSbLocation sfsMapLocation
    split
    · simp only [reduceCtorEq, false_iff]
      omega
    · split
      · simp only [reduceCtorEq, false_iff]
        omega
      · simp only [true_iff]
        omega
  case data =>
    intro b i n
    constructor
    · intro e
      unfold oneOwner at e
      split at e
      · cases e
      split at e
      · rename_i hb
        cases e
        exact ⟨rfl, by decide, by rw [oneBlock_ptr rfl, hb]; rfl, by omega⟩
      · cases e
    · rintro ⟨hi, hn, hp, hb⟩
      rw [oneBlock_ptr hi] at hp
      split at hp
      · rename_i hin
        rw [← hp, hin.1, hin.2]
        rfl
      · exact absurd hp.symm hb
  case indirect =>
    intro b i
    constructor
    · intro e
      unfold oneOwner at e
      split at e
      · cases e
      · split at e <;> cases e
    · rintro ⟨hi, hp, hb⟩
      exact absurd ((oneBlock_indirect hi).symm.trans hp).symm hb
  case loaded =>
    intro sv hsv
    obtain rfl := List.mem_singleton.mp hsv
    rfl
  case nodup => simp [oneBlock]
  case clean =>
    intro sv hsv
    obtain rfl := List.mem_singleton.mp hsv
    simp
  case inodes =>
    intro i hi
    rcases oneOwner_inode.mp hi with rfl | rfl
    · rw [oneBlock_inode_root]
      exact ⟨by decide, rfl, by decide⟩
    · exact ⟨hsize, rfl, show 1 < 2 ^ 16 by decide⟩
  case magic => rfl
  case super => exact hsuper
  case superdirty => rfl
  case map => simp [oneBlock]

end

end Os161
