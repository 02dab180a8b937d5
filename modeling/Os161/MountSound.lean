import Os161.LinkSound

/-!
# What is synced can be mounted

`sfs_sync` leaves nothing in memory that the disk does not hold, and
`sfs_domount` reads it back: the volume is the same, whatever was in memory
before.
-/

namespace Os161

open Bytes Proc

section
variable {c : Prop} {own : Nat → BlockOwner} {s s' t : Sfs} {a : Vol} {b i j n : Nat} {m : Mem} {sv : SfsVnode}
  {v : VnodeCounts}

/-! ## The free map -/

theorem RepAt.writeMap (h : RepAt c own s a) (hd : s.sfsFreemapdirty = true) (hj : j < sfsBitblocks s.nblocks) :
    RepAt c own (s.write (sfsMapLocation + j) m) a := by
  have ho := h.owned
  have hsys : own (sfsMapLocation + j) = .system :=
    (ho.system _).mpr (Or.inr (Or.inl ⟨Nat.le_add_right .., Nat.add_lt_add_left hj _⟩))
  have hne : ∀ b, own b ≠ .system → b ≠ sfsMapLocation + j := fun b hb e => hb (e ▸ hsys)
  have hdisk : ∀ b, own b ≠ .system → (s.write (sfsMapLocation + j) m).disk b = s.disk b := fun b hb =>
    Function.update_of_ne (hne b hb) ..
  have hsame : SameFiles own s (s.write (sfsMapLocation + j) m) := ⟨rfl, ⟨rfl, rfl, rfl⟩,
    fun i hi => inode_write (Or.inl (hne i (by rw [hi]; simp)).symm), fun _ _ => rfl,
    fun sv hsv => ⟨ho.loaded sv hsv, fun hc => by
      rw [hdisk _ (by rw [ho.loaded sv hsv]; simp)]
      exact ho.clean sv hsv hc⟩,
    ho.nodup, Function.update_of_ne (by unfold sfsSbLocation sfsMapLocation; omega) .., ho.superdirty,
    fun hc => absurd (hd.symm.trans hc) (by simp)⟩
  exact (h.image hsame (fun b hb _ => hdisk b hb) h.calm).congr (fun _ => Iff.rfl) (fun _ _ => rfl) h.table.symm

theorem diskBit_mapBlock (disk : Nat → Mem) (map : Nat → Bool) (b : Nat) :
    diskBit (Function.update disk (sfsMapLocation + j) (mapBlock map j)) b =
      if b / sfsBlockbits = j then map b else diskBit disk b := by
  unfold diskBit
  by_cases hb : b / sfsBlockbits = j
  · rw [if_pos hb, hb, Function.update_self, mapBlock, getBit_ofBits, ← hb, Nat.mul_comm, Nat.div_add_mod]
  · rw [if_neg hb, Function.update_of_ne fun e => hb (Nat.add_left_cancel e)]

theorem mapWrite_spec (h : RepAt c own s a) (hd : s.sfsFreemapdirty = true) (hn : j + n ≤ sfsBitblocks s.nblocks)
    (hj : ∀ b, b / sfsBlockbits < j → diskBit s.disk b = s.sfsFreemap b) :
    wp (mapWrite n j)
      (fun _ s' => RepAt c own s' a ∧ s'.sfsVnodes = s.sfsVnodes ∧ s'.nblocks = s.nblocks ∧
        ∀ b, b / sfsBlockbits < j + n → diskBit s'.disk b = s'.sfsFreemap b)
      (fun _ _ => False) (fun _ => False) s := by
  induction n generalizing s j with
  | zero => exact ⟨h, rfl, rfl, hj⟩
  | succ n ih =>
    have hfits := h.owned.fits
    simp only [mapWrite, wp_bind, wp_get]
    refine (h.wblock (by omega)).mpr ?_
    have hrep := h.writeMap (m := mapBlock s.sfsFreemap j) (j := j) hd (show j < sfsBitblocks s.nblocks by omega)
    refine (ih hrep hd (show j + 1 + n ≤ sfsBitblocks s.nblocks by omega) fun b hb => ?_).imp fun _ s' hs => ?_
    · show diskBit (Function.update s.disk _ _) b = s.sfsFreemap b
      rw [diskBit_mapBlock]
      split
      · rfl
      · exact hj b (by omega)
    · obtain ⟨h1, h2, h3, h4⟩ := hs
      exact ⟨h1, h2, h3, fun b hb => h4 b (by omega)⟩

theorem div_blockbits (hb : b < sfsBitmapsize n) : b / sfsBlockbits < sfsBitblocks n :=
  Nat.div_lt_div_of_lt_of_dvd (Nat.dvd_mul_left ..) hb

theorem syncFreemap_spec (h : RepAt c own s a) :
    wp syncFreemap
      (fun _ s' => RepAt c own s' a ∧ s'.sfsVnodes = s.sfsVnodes ∧ s'.sfsFreemapdirty = false)
      (fun _ _ => False) (fun _ => False) s := by
  simp only [syncFreemap, wp_bind, wp_get]
  by_cases hd : s.sfsFreemapdirty = true
  · rw [if_pos hd, wp_bind]
    refine (mapWrite_spec h hd (j := 0) (by omega) fun b hb => absurd hb (Nat.not_lt_zero _)).imp fun _ s' hs => ?_
    obtain ⟨hrep, hvn, hnb, hmap⟩ := hs
    rw [wp_modify]
    refine ⟨?_, hvn, rfl⟩
    have ho := hrep.owned
    have hsame : SameFiles own s' { s' with sfsFreemapdirty := false } := ⟨rfl, ⟨rfl, rfl, rfl⟩, fun _ _ => rfl,
      fun _ _ => rfl, fun sv hsv => ⟨ho.loaded sv hsv, ho.clean sv hsv⟩, ho.nodup, rfl, ho.superdirty,
      fun _ b hb => hmap b (by rw [Nat.zero_add, ← hnb]; exact div_blockbits hb)⟩
    exact (hrep.image hsame (fun _ _ _ => rfl) hrep.calm).congr (fun _ => Iff.rfl) (fun _ _ => rfl) hrep.table.symm
  · rw [if_neg hd]
    exact ⟨h, rfl, by simpa using hd⟩

/-! ## Synchronising -/

def Sfs.Clean (s : Sfs) (i : Nat) : Prop := ∃ sv, s.vnode i = some sv ∧ sv.svDirty = false

theorem others_syncInode : Keeps (Others i) (sfsSyncInode i) := by
  unfold sfsSyncInode
  refine .bind .trans others_getSv fun sv => .ite (.bind .trans others_wblock fun _ => ?_) (.pure .refl _)
  exact others_modifySv fun _ => rfl

theorem vopFsync_spec (h : RepAt c own s a) (hv : a.counts i = some v) (hc : 0 < v.vnRefcount ∧ 0 ≤ v.vnOpencount) :
    wp (vopFsync i) (fun _ s' => RepAt c own s' a ∧ s'.Clean i ∧ ∀ j, s.Clean j → s'.Clean j)
      (fun _ _ => False) (fun _ => False) s := by
  obtain ⟨sv, hsv, rfl⟩ := h.counts_vnode hv
  unfold vopFsync
  rw [wp_bind]
  refine wp_vopCheck hsv hc.1 hc.2 _ ?_
  refine ((syncInode_spec h ⟨_, hv⟩).and (others_syncInode s)).mono (fun _ s' hs => ?_) (fun _ _ he => he.1)
    fun _ hk => hk.1
  obtain ⟨⟨hrep, hclean, -⟩, hothers⟩ := hs
  refine ⟨hrep, hclean, fun j hj => ?_⟩
  by_cases hji : j = i
  · exact hji ▸ hclean
  · obtain ⟨sv', hsv', hd⟩ := hj
    exact ⟨sv', (hothers j hji).trans hsv', hd⟩

theorem syncVnodes_spec {l : List SfsVnode} (h : RepAt c own s a)
    (hcounts : ∀ i v, a.counts i = some v → 0 < v.vnRefcount ∧ 0 ≤ v.vnOpencount)
    (hl : ∀ sv ∈ l, a.Loaded sv.svIno) :
    wp (syncVnodes l)
      (fun _ s' => RepAt c own s' a ∧ (∀ sv ∈ l, s'.Clean sv.svIno) ∧ ∀ i, s.Clean i → s'.Clean i)
      (fun _ _ => False) (fun _ => False) s := by
  induction l generalizing s with
  | nil => exact ⟨h, fun _ hsv => absurd hsv List.not_mem_nil, fun _ hi => hi⟩
  | cons sv l ih =>
    have hrest : ∀ sv ∈ l, a.Loaded sv.svIno := fun sv hsv => hl sv (List.mem_cons_of_mem _ hsv)
    obtain ⟨v, hv⟩ := hl sv List.mem_cons_self
    simp only [syncVnodes, wp_bind, wp_attempt]
    refine (vopFsync_spec h hv (hcounts _ _ hv)).mono (fun _ s₁ h₁ => ?_) (fun _ _ he => he.elim) fun _ hk => hk
    obtain ⟨hrep, hclean, hkept⟩ := h₁
    refine (ih hrep hrest).imp fun _ s₂ h₂ => ?_
    obtain ⟨h₂, hall, hold⟩ := h₂
    refine ⟨h₂, fun sv' hsv' => ?_, fun i hi => hold i (hkept i hi)⟩
    rcases List.mem_cons.mp hsv' with rfl | hmem
    · exact hold _ hclean
    · exact hall _ hmem

theorem Owned.vnode_of_mem (h : Owned own s) (hsv : sv ∈ s.sfsVnodes) : s.vnode sv.svIno = some sv :=
  Table.get_of_mem h.nodup hsv

theorem sync_spec (h : RepAt c own s a)
    (hcounts : ∀ i v, a.counts i = some v → 0 < v.vnRefcount ∧ 0 ≤ v.vnOpencount) :
    wp sfsSync
      (fun _ s' => RepAt c own s' a ∧ s'.sfsFreemapdirty = false ∧ ∀ sv ∈ s'.sfsVnodes, sv.svDirty = false)
      (fun _ _ => False) (fun _ => False) s := by
  have hl : ∀ sv ∈ s.sfsVnodes, a.Loaded sv.svIno := fun sv hsv => h.loaded (h.owned.vnode_of_mem hsv)
  simp only [sfsSync, wp_bind, wp_get]
  refine (syncVnodes_spec h hcounts hl).always fun _ s₁ h₁ => ?_
  obtain ⟨hrep, hclean, -⟩ := h₁
  rw [wp_bind]
  refine (syncFreemap_spec hrep).imp fun _ s₂ h₂ => ?_
  obtain ⟨hrep₂, hvn, hmap⟩ := h₂
  simp only [syncSuper, wp_bind, wp_get]
  rw [if_neg (by rw [hrep₂.owned.superdirty]; exact Bool.false_ne_true)]
  refine ⟨hrep₂, hmap, ?_⟩
  rw [hvn]
  intro sv hsv
  have hv := hrep.owned.vnode_of_mem hsv
  obtain ⟨sv₀, hv₀⟩ := h.vnode (hrep.loaded hv)
  obtain ⟨sv', hv', hd⟩ := hclean sv₀ (Table.get_mem hv₀)
  rw [Table.get_key hv₀, hv] at hv'
  rwa [Option.some_inj.mp hv']

/-! ## Mounting -/

theorem wp_rblock_calm {Q : Mem → Sfs → Prop} {E : Errno → Sfs → Prop} {K : FsPanic → Prop} (hf : s.faults = [])
    (hb : b < 2 ^ 22 ∧ b < s.dBlocks) : wp (sfsRblock b) Q E K s ↔ Q (s.disk b) s := by
  have hrest : s.rest = s := by unfold Sfs.rest; rw [hf, List.tail_nil, ← hf]
  simp only [sfsRblock, wp_bind, wp_get, sectorOf_of_lt hb.1, if_neg (Nat.not_le.mpr hb.2), wp_nextFault]
  rw [hf, hrest]
  rfl

theorem wp_kmalloc_calm {α : Type} {p : SfsM α} {Q : α → Sfs → Prop} {E : Errno → Sfs → Prop} {K : FsPanic → Prop}
    (hf : s.faults = []) :
    wp (do
      if ← nextFault then throw .enomem
      p) Q E K s ↔ wp p Q E K s := by
  have hrest : s.rest = s := by unfold Sfs.rest; rw [hf, List.tail_nil, ← hf]
  rw [wp_bind, wp_nextFault, hf, hrest]
  rfl

def Sfs.mounted (s : Sfs) : Sfs :=
  { s.device with
    sfsSuper := readSuper (s.disk sfsSbLocation)
    sfsFreemap := fun k =>
      if k / sfsBlockbits < sfsBitblocks (readSuper (s.disk sfsSbLocation)).spNblocks then diskBit s.disk k else false }

theorem mapRead_spec (hf : s.faults = []) (hn : sfsMapLocation + (j + n) ≤ s.dBlocks)
    (hsmall : sfsMapLocation + (j + n) ≤ 2 ^ 22) :
    wp (mapRead n j)
      (fun _ s' => s' = { s with sfsFreemap := fun k =>
        if j ≤ k / sfsBlockbits ∧ k / sfsBlockbits < j + n then diskBit s.disk k else s.sfsFreemap k })
      (fun _ _ => False) (fun _ => False) s := by
  induction n generalizing s j with
  | zero =>
    have hnone : ∀ k, ¬ (j ≤ k ∧ k < j + 0) := fun k => by omega
    simp only [mapRead, wp_pure, if_neg (hnone _)]
  | succ n ih =>
    simp only [mapRead, wp_bind]
    rw [wp_rblock_calm hf (by omega), wp_bind, wp_modify]
    refine wp.imp (ih hf (show sfsMapLocation + (j + 1 + n) ≤ s.dBlocks by omega) (by omega)) fun _ s' hs => ?_
    rw [hs]
    congr 1
    funext k
    dsimp only
    by_cases hk : k / sfsBlockbits = j
    · rw [if_neg (by omega), if_pos hk, if_pos (by omega), diskBit, hk]
    · rw [if_neg hk]
      exact if_congr (by omega) rfl rfl

theorem domount_spec (hf : s.faults = []) (hsec : s.dBlocksize = sfsBlocksize)
    (hm : (readSuper (s.disk sfsSbLocation)).spMagic = sfsMagic)
    (hd : sfsMapLocation + sfsBitblocks (readSuper (s.disk sfsSbLocation)).spNblocks ≤ s.dBlocks)
    (hsmall : sfsMapLocation + sfsBitblocks (readSuper (s.disk sfsSbLocation)).spNblocks ≤ 2 ^ 22) :
    wp sfsDomount (fun _ s' => s' = s.mounted) (fun _ _ => False) (fun _ => False) s := by
  have hdev : s.device.faults = [] := hf
  have hpos : sfsSbLocation < 2 ^ 22 ∧ sfsSbLocation < s.device.dBlocks :=
    ⟨by decide, Nat.lt_of_lt_of_le (by unfold sfsSbLocation sfsMapLocation; omega) hd⟩
  unfold sfsDomount
  rw [wp_bind, wp_get, if_neg (not_not.mpr hsec), wp_bind, wp_modify, wp_kmalloc_calm hdev,
    wp_kmalloc_calm hdev, wp_bind, wp_rblock_calm hdev hpos]
  rw [show s.device.disk = s.disk from rfl, if_neg (not_not.mpr hm), wp_bind, wp_modify]
  have hsup : ({ s.device with sfsSuper := readSuper (s.disk sfsSbLocation) } : Sfs).faults = [] := hf
  rw [wp_kmalloc_calm hsup, wp_kmalloc_calm hsup]
  refine wp.imp (mapRead_spec hf (by rw [Nat.zero_add]; exact hd) (by rw [Nat.zero_add]; exact hsmall))
    fun _ s' hs => ?_
  rw [hs, Sfs.mounted]
  congr 1
  funext k
  exact if_congr (by rw [Nat.zero_add]; exact and_iff_right (Nat.zero_le _)) rfl rfl

theorem RepAt.mounted (h : RepAt c own s a) (hmap : s.sfsFreemapdirty = false)
    (hclean : ∀ sv ∈ s.sfsVnodes, sv.svDirty = false) (ht : t.disk = s.disk)
    (hd : t.dBlocks = s.dBlocks ∧ t.dBlocksize = s.dBlocksize ∧ t.lost = s.lost) (hf : t.faults = []) :
    RepAt c own t.mounted { a with table := [] } := by
  have ho := h.owned
  have hsuper : readSuper (t.disk sfsSbLocation) = s.sfsSuper := by rw [ht, ho.super]
  have hread : ∀ b < s.nbits, diskBit t.disk b = s.sfsFreemap b := fun b hb => by rw [ht, ho.map hmap b hb]
  refine @RepAt.image _ _ _ t.mounted _ h ⟨hsuper, hd, fun i hi => ?_, fun b hb => ?_,
    fun sv hsv => absurd hsv List.not_mem_nil, List.nodup_nil, congrFun ht _, rfl, fun _ b hb => hread b hb⟩
    (fun b _ _ => congrFun ht b) (fun _ => hf)
  · show readInode (t.disk i) = s.inode i
    rw [ht]
    unfold Sfs.inode
    cases hv : s.vnode i with
    | none => rfl
    | some sv =>
      have hmem := Table.get_mem hv
      have hdisk := ho.clean sv hmem (hclean sv hmem)
      rw [Table.get_key hv] at hdisk
      exact hdisk
  · refine (if_pos ?_).trans (hread b hb)
    rw [hsuper]
    exact div_blockbits hb

end

end Os161
