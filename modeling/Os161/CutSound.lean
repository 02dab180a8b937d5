import Os161.StoreSound

/-!
# Data that was cut off

What `sfs_truncate` makes of a volume: the file loses the blocks it discards
and nothing else changes. The bytes past the new end that are in a block it
keeps are still there, and come back when the file grows again.
-/

namespace Os161

open Bytes Proc

/-! ## What truncation leaves alone -/

structure Spares (i d : Nat) (s s' : Sfs) : Prop where
  disk : ∀ b, b = 0 ∨ b ≠ d → s'.disk b = s.disk b
  table : s'.table = s.table
  vnode : ∀ j, j ≠ i → s'.vnode j = s.vnode j
  inode : ∀ sv, s.vnode i = some sv → ∃ sv', s'.vnode i = some sv' ∧ sv'.svI.sfiType = sv.svI.sfiType ∧
    sv'.svI.sfiLinkcount = sv.svI.sfiLinkcount ∧ (sv.svI.sfiSize < 2 ^ 32 → sv'.svI.sfiSize < 2 ^ 32)
  clean : ∀ sv', s'.vnode i = some sv' → sv'.svDirty = false → s.vnode i = some sv'
  sectors : s'.dBlocksize = s.dBlocksize
  superdirty : s'.sfsSuperdirty = s.sfsSuperdirty
  map : s'.sfsFreemapdirty = true ∨ s'.sfsFreemap = s.sfsFreemap ∧ s'.sfsFreemapdirty = s.sfsFreemapdirty

section
variable {s s' s'' : Sfs} {i d b : Nat} {f : SfsVnode → SfsVnode}

theorem Spares.refl (s : Sfs) : Spares i d s s :=
  ⟨fun _ _ => rfl, rfl, fun _ _ => rfl, fun sv hv => ⟨sv, hv, rfl, rfl, id⟩, fun _ hv _ => hv, rfl, rfl,
    Or.inr ⟨rfl, rfl⟩⟩

theorem Spares.trans (s s' s'' : Sfs) (h : Spares i d s s') (h' : Spares i d s' s'') : Spares i d s s'' := by
  constructor
  case disk => exact fun b hb => (h'.disk b hb).trans (h.disk b hb)
  case table => exact h'.table.trans h.table
  case vnode => exact fun j hj => (h'.vnode j hj).trans (h.vnode j hj)
  case inode =>
    intro sv hv
    obtain ⟨sv₁, hv₁, ht₁, hl₁, hs₁⟩ := h.inode sv hv
    obtain ⟨sv₂, hv₂, ht₂, hl₂, hs₂⟩ := h'.inode sv₁ hv₁
    exact ⟨sv₂, hv₂, ht₂.trans ht₁, hl₂.trans hl₁, fun hs => hs₂ (hs₁ hs)⟩
  case clean => exact fun sv hv hd => h.clean sv (h'.clean sv hv hd) hd
  case sectors => exact h'.sectors.trans h.sectors
  case superdirty => exact h'.superdirty.trans h.superdirty
  case map =>
    rcases h'.map with hd | ⟨hm, hd⟩
    · exact Or.inl hd
    · rw [hm, hd]
      exact h.map

theorem spares_modifySv (hf : ∀ x, (f x).svIno = x.svIno ∧ (f x).svV = x.svV ∧ (f x).svDirty = true)
    (hi : ∀ x, (f x).svI.sfiType = x.svI.sfiType ∧ (f x).svI.sfiLinkcount = x.svI.sfiLinkcount ∧
      (x.svI.sfiSize < 2 ^ 32 → (f x).svI.sfiSize < 2 ^ 32)) :
    Keeps (Spares i d) (modifySv i f) := by
  intro s
  rw [wp_modifySv]
  refine ⟨fun _ _ => rfl, table_modifySv fun x => ⟨(hf x).1, (hf x).2.1⟩,
    fun j hj => vnode_modifySv_of_ne (fun x => (hf x).1) hj, fun sv hv => ?_, fun sv hv hd => ?_, rfl, rfl,
    Or.inr ⟨rfl, rfl⟩⟩
  · exact ⟨f sv, vnode_modifySv (fun x => (hf x).1) hv, hi sv⟩
  · have hget := @Table.get_modify_self _ SfsVnode.svIno s.sfsVnodes i f fun x => (hf x).1
    obtain ⟨sv₁, -, rfl⟩ := Option.map_eq_some_iff.mp (hget.symm.trans hv)
    rw [(hf sv₁).2.2] at hd
    cases hd

theorem spares_bfree : Keeps (Spares i d) (sfsBfree b) := by
  intro s
  by_cases hb : b < s.nbits
  · by_cases hm : s.sfsFreemap b = true
    · rw [wp_bfree_marked hb hm]
      exact { Spares.refl s with map := Or.inl rfl }
    · simp [sfsBfree, bitmapUnmark, assertFs, Proc.require, hb, hm]
  · simp [sfsBfree, bitmapUnmark, assertFs, Proc.require, hb]

theorem spares_getSv {j : Nat} : Keeps (Spares i d) (getSv j) := by
  unfold getSv
  refine .bind .trans (.get .refl) fun s => ?_
  cases s.vnode j with
  | none => exact .crash _
  | some sv => exact .pure .refl sv

theorem spares_rblock : Keeps (Spares i d) (sfsRblock b) := keeps_rblock fun s => { Spares.refl s with }

theorem spares_wblock {m : Mem} (hd : d ≠ 0) (hsec : sectorOf d = d) : Keeps (Spares i d) (sfsWblock m d) := by
  refine keeps_wblock (fun s _ => { Spares.refl s with }) fun s _ => { @Spares.refl i d s with disk := fun b hb => ?_ }
  rw [hsec]
  exact Function.update_of_ne (hb.elim (fun h => h ▸ hd.symm) id) _ _

theorem spares_truncDirect (L : Nat) (l : List (Fin sfsNdirect)) : Keeps (Spares i d) (truncDirect i L l) := by
  induction l with
  | nil => exact .pure .refl ()
  | cons k l ih =>
    refine .bind .trans spares_getSv fun sv => ?_
    have hset : Keeps (Spares i d)
        (modifySv i fun sv => { sv with svI := sv.svI.setDirect k 0, svDirty := true }) :=
      spares_modifySv (fun _ => ⟨rfl, rfl, rfl⟩) fun _ => ⟨rfl, rfl, id⟩
    dsimp only
    split
    · exact .bind .trans spares_bfree fun _ => .bind .trans hset fun _ => ih
    · exact ih

theorem spares_truncEntries (L : Nat) (l : List Nat) (r : IdScan) : Keeps (Spares i d) (truncEntries L l r) := by
  induction l generalizing r with
  | nil => exact .pure .refl r
  | cons j l ih =>
    unfold truncEntries
    split
    · exact .bind .trans spares_bfree fun _ => ih _
    · exact ih _

theorem spares_truncIndirect (L : Nat) (hd : d ≠ 0) (hsec : sectorOf d = d) :
    Keeps (Spares i d) (truncIndirect i L d) := by
  refine .bind .trans spares_rblock fun b => .bind .trans (spares_truncEntries L _ _) fun r => ?_
  split
  · exact .bind .trans spares_bfree fun _ => spares_modifySv (fun _ => ⟨rfl, rfl, rfl⟩) fun _ => ⟨rfl, rfl, id⟩
  split
  · exact spares_wblock hd hsec
  · exact .pure .refl ()

theorem truncate_spares (h : FileOwned s i) (len : Int) :
    wp (sfsTruncate i len) (fun _ => Spares i (s.inode i).sfiIndirect s) (fun _ => Spares i (s.inode i).sfiIndirect s)
      (fun _ => True) s := by
  unfold sfsTruncate
  have hdirect := (truncDirect_effect (L := blocklen len) (E := fun _ _ => True) (K := fun _ => True) h).and
    (spares_truncDirect (d := (s.inode i).sfiIndirect) (blocklen len) (List.finRange sfsNdirect) s)
  refine wp_bind.mpr (hdirect.mono (fun _ s₁ => ?_) (fun _ _ h => h.2) fun _ _ => trivial)
  rintro ⟨he, hs⟩
  obtain ⟨sv₁, hv₁⟩ := he.owned.loaded
  have hid : sv₁.svI.sfiIndirect = (s.inode i).sfiIndirect := by
    rw [← he.indirect, vnode_inode hv₁]
  have hset : Keeps (Spares i (s.inode i).sfiIndirect) (modifySv i fun sv =>
      { sv with svI := { sv.svI with sfiSize := (len % 2 ^ 32).toNat }, svDirty := true }) :=
    spares_modifySv (fun _ => ⟨rfl, rfl, rfl⟩) fun _ => ⟨rfl, rfl, fun _ => by dsimp only; omega⟩
  have hrest : ∀ p : SfsM Unit, Keeps (Spares i (s.inode i).sfiIndirect) p → wp p
      (fun _ => Spares i (s.inode i).sfiIndirect s) (fun _ => Spares i (s.inode i).sfiIndirect s) (fun _ => True) s₁ :=
    fun p hp => (hp s₁).mono (fun _ s₂ h₂ => hs.trans _ _ _ h₂) (fun _ s₂ h₂ => hs.trans _ _ _ h₂) fun _ h => h
  rw [wp_bind, wp_getSv hv₁]
  split
  · rename_i hc
    rw [hid] at hc ⊢
    have hsec : sectorOf (s.inode i).sfiIndirect = (s.inode i).sfiIndirect :=
      sectorOf_of_lt (Nat.lt_of_lt_of_le (h.indirect hc.2).1 h.small)
    exact hrest _ (.bind .trans (spares_truncIndirect _ hc.2 hsec) fun _ => hset)
  · exact hrest _ hset

end

/-! ## Who owns what is left -/

section
variable {c : Prop} {own : Nat → BlockOwner} {s s' : Sfs} {a : Vol} {i L b : Nat} {sv : SfsVnode}
  {D : Nat → Prop} {G : Prop}

def CutBlock (s : Sfs) (i : Nat) (D : Nat → Prop) (G : Prop) (b : Nat) : Prop :=
  b ≠ 0 ∧ ((∃ n < sfsMaxblocks, D n ∧ s.ptr i n = b) ∨ (G ∧ (s.inode i).sfiIndirect = b))

structure CutEffect (s : Sfs) (i : Nat) (D : Nat → Prop) (G : Prop) (s' : Sfs) : Prop where
  discarded : ∀ n < sfsMaxblocks, D n → s'.ptr i n = 0
  kept : ∀ n < sfsMaxblocks, ¬ D n → s'.ptr i n = s.ptr i n
  gone : G → (s'.inode i).sfiIndirect = 0
  stays : ¬ G → (s'.inode i).sfiIndirect = (s.inode i).sfiIndirect
  frees : Frees s (CutBlock s i D G) s'

theorem TruncEffect.cut (h : TruncEffect s i L s') : CutEffect s i (Discards L) (IndirectGoes s i L) s' :=
  ⟨h.discarded, h.kept, h.gone, h.stays, h.frees⟩

open Classical in
noncomputable def giveUp (own : Nat → BlockOwner) (F : Nat → Prop) (b : Nat) : BlockOwner :=
  if F b then .free else own b

theorem Owned.cutBlock (h : Owned own s) (hi : own i = .inode) (hb : CutBlock s i D G b) :
    (∃ n, D n ∧ own b = .data i n) ∨ (G ∧ own b = .indirect i) := by
  obtain ⟨h0, ⟨n, hn, hd, rfl⟩ | ⟨hg, rfl⟩⟩ := hb
  · exact Or.inl ⟨n, hd, h.ptr_own hi hn h0⟩
  · exact Or.inr ⟨hg, h.indirect_own hi h0⟩

section
variable (h : Owned own s) (hi : own i = .inode) (hsp : Spares i (s.inode i).sfiIndirect s s')
include h hi hsp

theorem Spares.disk_eq (hb : own b ≠ .indirect i) : s'.disk b = s.disk b := by
  refine hsp.disk b ?_
  by_cases hz : (s.inode i).sfiIndirect = 0
  · rw [hz]
    exact Decidable.em _
  · exact Or.inr fun e => hb (e ▸ h.indirect_own hi hz)

theorem Spares.inode_eq {j : Nat} (hj : own j = .inode) (hji : j ≠ i) : s'.inode j = s.inode j := by
  unfold Sfs.inode
  rw [hsp.vnode j hji, hsp.disk_eq h hi (by rw [hj]; simp)]

theorem Spares.ptr_eq {j n : Nat} (hj : own j = .inode) (hji : j ≠ i) : s'.ptr j n = s.ptr j n := by
  unfold Sfs.ptr
  rw [hsp.inode_eq h hi hj hji]
  refine Inode.ptr_congr fun hz => hsp.disk_eq h hi ?_
  rw [h.indirect_own hj hz]
  intro e
  exact hji (by injection e)

end

theorem Owned.cut (h : Owned own s) (hv : s.vnode i = some sv) (he : CutEffect s i D G s')
    (hsp : Spares i (s.inode i).sfiIndirect s s') :
    Owned (giveUp own (CutBlock s i D G)) s' := by
  have hi := h.vnode_own hv
  have hf : Frees s (CutBlock s i D G) s' := he.frees
  have hnb : s'.nblocks = s.nblocks := congrArg Super.spNblocks hf.super
  have hcut : ∀ {b}, CutBlock s i D G b → own b ≠ .inode ∧ own b ≠ .system ∧ ∀ j n, j ≠ i → own b ≠ .data j n ∧
      own b ≠ .indirect j := by
    intro b hb
    rcases h.cutBlock hi hb with ⟨n, -, e⟩ | ⟨-, e⟩ <;> rw [e]
    · refine ⟨by simp, by simp, fun j n hj => ⟨fun e => hj (by injection e with e; exact e.symm), by simp⟩⟩
    · refine ⟨by simp, by simp, fun j n hj => ⟨by simp, fun e => hj (by injection e with e; exact e.symm)⟩⟩
  have hfree : ∀ {b}, CutBlock s i D G b → giveUp own (CutBlock s i D G) b = .free := fun hb => if_pos hb
  have hsame : ∀ {b}, ¬ CutBlock s i D G b → giveUp own (CutBlock s i D G) b = own b := fun hb => if_neg hb
  have hkeep : ∀ b x, x ≠ .free → (∀ {b}, CutBlock s i D G b → own b ≠ x) →
      (giveUp own (CutBlock s i D G) b = x ↔ own b = x) := by
    intro b x hx hno
    by_cases hb : CutBlock s i D G b
    · rw [hfree hb]
      exact ⟨fun e => absurd e.symm hx, fun e => absurd e (hno hb)⟩
    · rw [hsame hb]
  have hlive : ∀ j, giveUp own (CutBlock s i D G) j = .inode ↔ own j = .inode := fun j =>
    hkeep j _ (by simp) fun hb => (hcut hb).1
  have hinos : s'.sfsVnodes.map SfsVnode.svIno = s.sfsVnodes.map SfsVnode.svIno := by
    have := congrArg (List.map Prod.fst) hsp.table
    simpa only [Sfs.table, List.map_map, Function.comp_def] using this
  have hown : ∀ sv' ∈ s'.sfsVnodes, own sv'.svIno = .inode := by
    intro sv' hsv'
    have hmem : sv'.svIno ∈ s.sfsVnodes.map SfsVnode.svIno := hinos ▸ List.mem_map_of_mem hsv'
    obtain ⟨sv₁, hsv₁, e⟩ := List.mem_map.mp hmem
    rw [← e]
    exact h.loaded sv₁ hsv₁
  have hnodup : (s'.sfsVnodes.map SfsVnode.svIno).Nodup := hinos ▸ h.nodup
  obtain ⟨sv', hv', htype, hlink, hsize⟩ := hsp.inode sv hv
  have hsys : ∀ c, SystemBlock s.nblocks c → s'.disk c = s.disk c := fun c hc =>
    hsp.disk_eq h hi (by rw [(h.system c).mpr hc]; simp)
  constructor
  case fits =>
    rw [hnb]
    exact h.fits
  case small =>
    rw [hnb]
    exact h.small
  case device =>
    rw [hnb, hf.dBlocks]
    exact h.device
  case sectors => exact hsp.sectors.trans h.sectors
  case lossless => exact hf.lost.trans h.lossless
  case root => exact (hlive _).mpr h.root
  case marked =>
    intro b hb
    rw [hf.nbits] at hb
    by_cases hF : CutBlock s i D G b
    · rw [hf.cleared b hF, hfree hF]
      simp
    · rw [hf.same b hF, hsame hF]
      exact h.marked b hb
  case system =>
    intro b
    rw [hnb, hkeep b .system (by simp) fun hb => (hcut hb).2.1]
    exact h.system b
  case data =>
    intro b j n
    rw [hlive]
    by_cases hji : j = i
    · subst hji
      constructor
      · intro e
        have hF : ¬ CutBlock s j D G b := fun hF => by rw [hfree hF] at e; cases e
        rw [hsame hF, h.data] at e
        obtain ⟨hj, hn, hp, hb⟩ := e
        have hd : ¬ D n := fun hd => hF ⟨hb, Or.inl ⟨n, hn, hd, hp⟩⟩
        exact ⟨hj, hn, (he.kept n hn hd).trans hp, hb⟩
      · rintro ⟨hj, hn, hp, hb⟩
        have hd : ¬ D n := fun hd => hb (hp.symm.trans (he.discarded n hn hd))
        rw [he.kept n hn hd] at hp
        have hown := (h.data b j n).mpr ⟨hj, hn, hp, hb⟩
        rw [hsame, hown]
        intro hF
        rcases h.cutBlock hi hF with ⟨n', hd', e⟩ | ⟨-, e⟩ <;> rw [hown] at e
        · injection e with _ e
          exact hd (e ▸ hd')
        · cases e
    · rw [hkeep b (.data j n) (by simp) fun hb => ((hcut hb).2.2 j n hji).1, h.data]
      exact and_congr_right fun hj => by rw [hsp.ptr_eq h hi hj hji]
  case indirect =>
    intro b j
    rw [hlive]
    by_cases hji : j = i
    · subst hji
      by_cases hg : G
      · rw [he.gone hg]
        refine ⟨fun e => ?_, fun e => absurd e.2.1.symm e.2.2⟩
        have hF : ¬ CutBlock s j D G b := fun hF => by rw [hfree hF] at e; cases e
        rw [hsame hF, h.indirect] at e
        exact absurd ⟨e.2.2, Or.inr ⟨hg, e.2.1⟩⟩ hF
      · rw [he.stays hg, ← h.indirect]
        refine hkeep b (.indirect j) (by simp) fun hb e => ?_
        rcases h.cutBlock hi hb with ⟨n, -, e'⟩ | ⟨hg', -⟩
        · rw [e] at e'
          cases e'
        · exact hg hg'
    · rw [hkeep b (.indirect j) (by simp) fun hb => ((hcut hb).2.2 j 0 hji).2, h.indirect]
      exact and_congr_right fun hj => by rw [hsp.inode_eq h hi hj hji]
  case loaded => exact fun sv₁ hsv₁ => (hlive _).mpr (hown sv₁ hsv₁)
  case nodup => exact hnodup
  case clean =>
    intro sv₁ hsv₁ hd
    have hget : s'.vnode sv₁.svIno = some sv₁ := Table.get_of_mem hnodup hsv₁
    have hget' : s.vnode sv₁.svIno = some sv₁ := by
      by_cases e : sv₁.svIno = i
      · rw [e] at hget ⊢
        exact hsp.clean sv₁ hget hd
      · rwa [hsp.vnode _ e] at hget
    rw [hsp.disk_eq h hi (by rw [hown sv₁ hsv₁]; simp)]
    exact h.clean sv₁ (Table.get_mem hget') hd
  case magic =>
    rw [hf.super]
    exact h.magic
  case super =>
    rw [hsys _ (Or.inl rfl), hf.super]
    exact h.super
  case superdirty => exact hsp.superdirty.trans h.superdirty
  case map =>
    intro hd b hb
    rw [hf.nbits] at hb
    rcases hsp.map with hd' | ⟨hm, hd'⟩
    · rw [hd] at hd'
      cases hd'
    · rw [hm]
      exact h.map_congr hsys (hd'.symm.trans hd) hb
  case inodes =>
    intro j hj
    rw [hlive] at hj
    by_cases hji : j = i
    · have hok := h.inodes i hi
      rw [vnode_inode hv] at hok
      rw [hji, vnode_inode hv']
      exact ⟨hsize hok.size, htype.trans hok.type, hlink ▸ hok.linkcount⟩
    · rw [hsp.inode_eq h hi hj hji]
      exact h.inodes j hj

/-! ## What the volume holds afterwards -/

def Vol.cut (a : Vol) (i : Nat) (len : Int) : Vol :=
  a.setView i { a.view i with
    size := (len % 2 ^ 32).toNat
    bytes := fun o => if Discards (blocklen len) (o / sfsBlocksize) then 0 else (a.view i).bytes o }

theorem Spares.data_eq {j n : Nat} (h : Owned own s) (hi : own i = .inode) (hsp : Spares i (s.inode i).sfiIndirect s s')
    (hj : own j = .inode) (hn : n < sfsMaxblocks) (h0 : s.ptr j n ≠ 0) : s'.disk (s.ptr j n) = s.disk (s.ptr j n) :=
  hsp.disk_eq h hi (by rw [h.ptr_own hj hn h0]; simp)

theorem CutEffect.byte [DecidablePred D] (h : Owned own s) (hi : own i = .inode) (he : CutEffect s i D G s')
    (hsp : Spares i (s.inode i).sfiIndirect s s') (o : Nat) :
    s'.byte i o = if D (o / sfsBlocksize) then 0 else s.byte i o := by
  unfold Sfs.byte
  by_cases ho : o < sfsMaxblocks * sfsBlocksize
  · have hn : o / sfsBlocksize < sfsMaxblocks := Nat.div_lt_of_lt_mul (by rwa [Nat.mul_comm] at ho)
    by_cases hd : D (o / sfsBlocksize)
    · rw [if_pos hd, he.discarded _ hn hd, if_neg fun e => e.2 rfl]
    · rw [if_neg hd, he.kept _ hn hd]
      by_cases h0 : s.ptr i (o / sfsBlocksize) = 0
      · rw [if_neg fun e => e.2 h0, if_neg fun e => e.2 h0]
      · rw [if_pos ⟨ho, h0⟩, if_pos ⟨ho, h0⟩, hsp.data_eq h hi hi hn h0]
  · simp only [ho, false_and, if_false, ite_self]

theorem RepAt.cut [DecidablePred D] (h : RepAt c own s a) (hv : s.vnode i = some sv) (he : CutEffect s i D G s')
    (hsp : Spares i (s.inode i).sfiIndirect s s') :
    ∃ own', RepAt c own' s' (a.setView i { a.view i with
      size := (s'.inode i).sfiSize
      bytes := fun o => if D (o / sfsBlocksize) then 0 else (a.view i).bytes o }) ∧
      ∀ b, own' b = .taken → own b = .taken := by
  have hi := h.owned.vnode_own hv
  obtain ⟨sv', hv', htype, hlink, -⟩ := hsp.inode sv hv
  refine ⟨_, ⟨h.owned.cut hv he hsp, fun j => ?_, fun j hj => ?_, hsp.table.trans h.table, fun hc => ?_⟩,
    fun b hb => ?_⟩
  · show a.live j ↔ _
    rw [h.live j]
    unfold giveUp
    split
    · rename_i hF
      rcases h.owned.cutBlock hi hF with ⟨n, -, e⟩ | ⟨-, e⟩ <;> simp [e]
    · rfl
  · have hown := (h.live j).mp hj
    have hview := h.view j hj
    by_cases hji : j = i
    · subst hji
      simp only [Vol.setView, Function.update_self]
      rw [← hview]
      have hin := vnode_inode hv
      have hin' := vnode_inode hv'
      simp only [Sfs.view, FileView.mk.injEq, true_and]
      refine ⟨by rw [hin', hin, htype], by rw [hin', hin, hlink], ?_⟩
      funext o
      exact he.byte h.owned hi hsp o
    · simp only [Vol.setView, Function.update_of_ne hji]
      rw [← hview]
      refine view_congr (hsp.inode_eq h.owned hi hown hji) (byte_congr (fun n _ => ?_) fun n hn h0 => ?_)
      · exact hsp.ptr_eq h.owned hi hown hji
      · exact hsp.data_eq h.owned hi hown hn h0
  · exact he.frees.calm (h.calm hc)
  · unfold giveUp at hb
    split at hb
    · cases hb
    · exact hb

theorem truncate_rep (h : RepAt c own s a) (hl : a.Loaded i) (len : Int) :
    wp (sfsTruncate i len)
      (fun _ s' => ∃ own', RepAt c own' s' (a.cut i len) ∧ ∀ b, own' b = .taken → own b = .taken)
      (fun _ _ => ¬ c) (fun _ => False) s := by
  obtain ⟨sv, hv⟩ := h.vnode hl
  have hfile := h.owned.fileOwned hv
  refine ((truncate_effect hfile len).and (truncate_spares hfile len)).mono ?_ ?_ fun _ hk => hk.1
  · rintro _ s' ⟨⟨he, hs⟩, hsp⟩
    obtain ⟨own', hrep, ht⟩ := h.cut hv he.cut hsp
    refine ⟨own', ?_, ht⟩
    rw [hs] at hrep
    exact hrep
  · rintro _ _ ⟨hf, -⟩ hc
    exact hf (h.calm hc)

/-! ### To nothing -/

theorem DirectEffect.cut (h : DirectEffect s i L s') : CutEffect s i (fun n => n < sfsNdirect ∧ L ≤ n) False s' := by
  refine ⟨fun n _ hd => ?_, fun n _ hd => ?_, False.elim, fun _ => h.indirect, h.frees.congr fun b => ?_⟩
  · rw [h.direct n hd.1, if_pos hd.2]
  · by_cases hn : n < sfsNdirect
    · rw [h.direct n hn, if_neg fun hL => hd ⟨hn, hL⟩]
    · exact h.entry n (Nat.le_of_not_lt hn)
  · refine and_congr_right fun _ => ⟨fun ⟨n, hn, hL, e⟩ => Or.inl ⟨n, sfsNdirect_lt hn, ⟨hn, hL⟩, e⟩, ?_⟩
    rintro (⟨n, -, ⟨hn, hL⟩, e⟩ | ⟨hf, -⟩)
    · exact ⟨n, hn, hL, e⟩
    · exact hf.elim

theorem truncEntries_zero {l : List Nat} {r : IdScan} :
    wp (truncEntries 0 l r) (fun r' _ => r'.hasnonzero = r.hasnonzero) (fun _ _ => False) (fun _ => True) s := by
  induction l generalizing r s with
  | nil => rfl
  | cons j l ih =>
    have hpos : 0 < sfsNdirect + j := Nat.add_pos_left (by decide) j
    unfold truncEntries
    split
    · rw [wp_bind]
      by_cases hb : r.idbuf j < s.nbits
      · by_cases hm : s.sfsFreemap (r.idbuf j) = true
        · rw [wp_bfree_marked hb hm]
          exact ih
        · simp [sfsBfree, bitmapUnmark, assertFs, Proc.require, hb, hm]
      · simp [sfsBfree, bitmapUnmark, assertFs, Proc.require, hb]
    · rename_i hno
      have hz : r.idbuf j = 0 := by
        by_contra hne
        exact hno ⟨hpos, hne⟩
      refine ih.imp fun r' _ hr => ?_
      rw [hr, hz]
      simp

theorem blocklen_zero : blocklen 0 = 0 := by decide

theorem discards_zero (n : Nat) : Discards 0 n := by
  unfold Discards
  split
  · exact Nat.zero_le _
  · rename_i hn
    exact ⟨by decide, Nat.lt_of_lt_of_le (by decide) (Nat.le_of_not_lt hn)⟩

theorem truncate_zero (h : RepAt c own s a) (hl : a.Loaded i) :
    wp (sfsTruncate i 0)
      (fun _ s' => ∃ own', RepAt c own' s' (a.setView i { a.view i with size := 0, bytes := fun _ => 0 }) ∧
        (∀ b, own' b = .taken → own b = .taken) ∧ (s'.inode i).sfiIndirect = 0 ∧ ∀ n < sfsMaxblocks, s'.ptr i n = 0)
      (fun e s' => ¬ c ∧ e = .eio ∧ ∃ v, v.type = (a.view i).type ∧ v.linkcount = (a.view i).linkcount ∧
        Rep c s' (a.setView i v)) (fun _ => False) s := by
  obtain ⟨sv, hv⟩ := h.vnode hl
  have hfile := h.owned.fileOwned hv
  -- an error comes from reading the indirect block, when the direct blocks are gone
  have herr : wp (sfsTruncate i 0) (fun _ _ => True) (fun e s' => ¬ c ∧ e = .eio ∧ ∃ v, v.type = (a.view i).type ∧
      v.linkcount = (a.view i).linkcount ∧ Rep c s' (a.setView i v)) (fun _ => True) s := by
    unfold sfsTruncate
    rw [blocklen_zero]
    have hdirect := (truncDirect_effect (L := 0) (E := fun _ _ => False) (K := fun _ => True) hfile).and
      (spares_truncDirect (d := (s.inode i).sfiIndirect) 0 (List.finRange sfsNdirect) s)
    refine wp_bind.mpr (hdirect.mono (fun _ s₁ => ?_) (fun _ _ hq => hq.1.elim) fun _ _ => trivial)
    rintro ⟨he, hsp⟩
    obtain ⟨own₁, h₁, ht₁⟩ := h.cut hv he.cut hsp
    obtain ⟨sv₁, hv₁⟩ := he.owned.loaded
    rw [wp_bind, wp_getSv hv₁]
    split
    · rename_i hc
      have hi₁ := h₁.owned.vnode_own hv₁
      have hid := h₁.owned.indirect_own hi₁ (by rw [vnode_inode hv₁]; exact hc.2)
      rw [vnode_inode hv₁] at hid
      unfold truncIndirect
      simp only [wp_bind]
      refine h₁.rblock (h₁.owned.lt_nblocks (by rw [hid]; simp)) ?_ fun hc => ?_
      · rw [wp_bind]
        refine truncEntries_zero.mono (fun r s₂ hr => ?_) (fun _ _ hf => hf.elim) fun _ hk => hk
        rw [if_pos hr]
        by_cases hb : sv₁.svI.sfiIndirect < s₂.nbits
        · by_cases hm : s₂.sfsFreemap sv₁.svI.sfiIndirect = true
          · rw [wp_bind, wp_bfree_marked hb hm]
            trivial
          · simp [sfsBfree, bitmapUnmark, assertFs, Proc.require, hb, hm]
        · simp [sfsBfree, bitmapUnmark, assertFs, Proc.require, hb]
      · have hrep : Rep c s₁.rest _ := ⟨own₁, h₁.rest, fun h => absurd h hc⟩
        exact ⟨hc, rfl, _, by exact rfl, by exact rfl, hrep⟩
    · trivial
  have hok := (truncate_effect hfile 0).and (truncate_spares hfile 0)
  refine (hok.and herr).mono (fun _ s' => ?_) (fun _ _ hq => hq.2) fun _ hk => hk.1.1
  rintro ⟨⟨⟨he, hs⟩, hsp⟩, -⟩
  rw [blocklen_zero] at he
  obtain ⟨own', hrep, ht⟩ := h.cut hv he.cut hsp
  refine ⟨own', ?_, ht, he.gone ⟨by decide, fun n _ hn hlt => ?_⟩, fun n hn => he.discarded n hn (discards_zero n)⟩
  · rw [hs] at hrep
    simp only [discards_zero, if_true] at hrep
    exact hrep
  · exact absurd (Nat.lt_of_lt_of_le (by decide) hn) hlt

end

/-! ## Cut and grown again -/

def Sfs.vol (s : Sfs) (own : Nat → BlockOwner) : Vol where
  live i := own i = .inode
  view := s.view
  table := s.table

def Sfs.withFaults (s : Sfs) (faults : List Bool) : Sfs := { s with faults := faults }

def ReadsBack (s : Sfs) (i p : Nat) (v : UInt8) : Prop :=
  ∃ faults x e y s', x.uio.Fits ∧ x.uio.uioRw = .read ∧ sfsIo i x (s.withFaults faults) = .ok (.ok (e, y), s') ∧
    x.uio.pos ≤ p ∧ p < y.uio.pos ∧ y.buf (x.uio.iovKbase + (p - x.uio.pos)) = v

inductive Later (i : Nat) (s : Sfs) : (Nat → Prop) → Sfs → Prop
  | refl : Later i s (fun _ => False) s
  | truncate {W : Nat → Prop} {s' s'' : Sfs} {faults : List Bool} {len : Int} (h : Later i s W s')
    (he : sfsTruncate i len (s'.withFaults faults) = .ok (.ok (), s'')) : Later i s W s''
  | write {W : Nat → Prop} {s' s'' : Sfs} {faults : List Bool} {x y : Xfer} {e : Option Errno} (h : Later i s W s')
    (hx : x.uio.Fits) (hrw : x.uio.uioRw = .write) (he : sfsIo i x (s'.withFaults faults) = .ok (.ok (e, y), s'')) :
    Later i s (fun p => W p ∨ x.uio.pos ≤ p ∧ p < y.uio.pos) s''

section
variable {c : Prop} {own : Nat → BlockOwner} {s s₁ s' : Sfs} {a : Vol} {i len p : Nat} {sv : SfsVnode} {x : Xfer}
  {W : Nat → Prop} {v : UInt8}

theorem Owned.rep (h : Owned own s) : RepAt False own s (s.vol own) :=
  ⟨h, fun _ => Iff.rfl, fun _ _ => rfl, rfl, False.elim⟩

theorem RepAt.withFaults (h : RepAt False own s a) (faults : List Bool) : RepAt False own (s.withFaults faults) a :=
  { h with owned := { h.owned with }, calm := False.elim }

theorem RepAt.quiet (h : RepAt False own s a) : RepAt True own (s.withFaults []) a :=
  { h with owned := { h.owned with }, calm := fun _ => rfl }

theorem Rep.withFaults (h : Rep False s a) (faults : List Bool) : Rep False (s.withFaults faults) a := by
  obtain ⟨own, h, ht⟩ := h
  exact ⟨own, h.withFaults faults, ht⟩

theorem Vol.write_bytes (a : Vol) (i k : Nat) : ((a.write i x k).view i).bytes =
    copyBytes (a.view i).bytes x.uio.pos x.buf x.uio.iovKbase k := by
  unfold Vol.write Vol.grow
  split
  · simp only [Vol.put, Vol.setBytes, Vol.setSize, Vol.setView, Function.update_self]
  · simp only [Vol.put, Vol.setBytes, Vol.setView, Function.update_self]

theorem Vol.write_table (a : Vol) (i k : Nat) : (a.write i x k).table = a.table := by
  unfold Vol.write Vol.grow
  split <;> rfl

theorem Vol.Loaded.congr {a' : Vol} (h : a.Loaded i) (ht : a'.table = a.table) : a'.Loaded i := by
  obtain ⟨v, hv⟩ := h
  refine ⟨v, ?_⟩
  rw [← hv, Vol.counts, ht]
  rfl

def NothingPast (i len : Nat) (W : Nat → Prop) (s : Sfs) : Prop :=
  ∃ a, Rep False s a ∧ a.Loaded i ∧ ∀ p, len ≤ p → ¬ W p → (a.view i).bytes p = 0

theorem Later.nothingPast (h : Later i s W s') (h₀ : NothingPast i len (fun _ => False) s) :
    NothingPast i len W s' := by
  induction h with
  | refl => exact h₀
  | truncate _ he ih =>
    obtain ⟨a, hrep, hl, hz⟩ := ih
    obtain ⟨own, hr, -⟩ := (hrep.withFaults _)
    obtain ⟨own', hr', -⟩ := (truncate_rep hr hl _).ok he
    refine ⟨_, ⟨own', hr', False.elim⟩, hl, fun p hp hW => ?_⟩
    simp only [Vol.cut, Vol.setView, Function.update_self]
    split
    · rfl
    · exact hz p hp hW
  | @write W s' s'' faults x y e _ hx hrw he ih =>
    obtain ⟨a, hrep, hl, hz⟩ := ih
    have hstored := (sfsIo_write hl hx (hrep.withFaults _) hrw).ok he
    obtain ⟨k, rfl, hrep'⟩ : ∃ k, y = x.adv k ∧ Rep False s'' (a.write i x k) := by
      cases hstored with
      | all h => exact ⟨_, rfl, h⟩
      | upTo k h => exact ⟨k, rfl, h⟩
    refine ⟨_, hrep', hl.congr (Vol.write_table ..), fun p hp hW => ?_⟩
    rw [not_or] at hW
    have hpos := hx.pos_skip k
    rw [Vol.write_bytes, copyBytes, if_neg fun hin => hW.2 ⟨hin.1, ?_⟩]
    · exact hz p hp hW.1
    · show p < (x.uio.skip k).pos
      omega

theorem RepAt.reads_back (h : RepAt False own s a) (hl : a.Loaded i) (hr : ReadsBack s i p v) :
    v = (a.view i).bytes p := by
  obtain ⟨faults, x, e, y, s', hx, hrw, he, hlo, hhi, rfl⟩ := hr
  obtain ⟨sv, hv⟩ := (h.withFaults faults).vnode hl
  obtain ⟨-, k, hbuf, hpos⟩ := (sfsIo_gets (h.withFaults faults) hv hx hrw).ok he
  have hview := (h.withFaults faults).view i (h.live_of_loaded hl)
  rw [hpos] at hhi
  rw [← hview, hbuf]
  simp only [Xfer.get, copyBytes, Nat.zero_add]
  rw [if_pos (by omega), Nat.add_sub_cancel_left, Nat.add_sub_cancel' hlo]
  rfl

theorem RepAt.comes_back (h : RepAt False own s a) (hl : a.Loaded i) (hp : p < sfsMaxbytes) :
    ∃ s', Later i s (fun _ => False) s' ∧ ReadsBack s' i p ((a.view i).bytes p) := by
  have hmax : sfsMaxbytes = 73216 := by decide
  obtain ⟨_, s', he, own', hr, -⟩ := ((truncate_rep h.quiet hl (73216 : Nat)).mono (fun _ _ hq => hq)
    (fun _ _ hc => hc trivial) fun _ hk => hk).returns
  have hlater : Later i s (fun _ => False) s' := .truncate .refl he
  refine ⟨s', hlater, ?_⟩
  obtain ⟨sv, hv⟩ := hr.vnode (i := i) hl
  have hview := hr.view i (h.live_of_loaded hl)
  -- nothing is discarded, and the size is the largest there is
  have hkeep : ∀ n, ¬ Discards (blocklen (73216 : Nat)) n := by
    intro n
    rw [blocklen_eq (by decide), Discards]
    have hL : lenBlocks 73216 = 143 := by decide
    rw [hL]
    split
    · rename_i hn
      have : sfsNdirect = 15 := rfl
      omega
    · exact fun hc => absurd hc.1 (by decide)
  have hbytes : s'.byte i = (a.view i).bytes := by
    have := congrArg FileView.bytes hview
    simp only [Vol.cut, Vol.setView, Function.update_self, hkeep, if_false] at this
    exact this
  have hsize : (s'.inode i).sfiSize = 73216 := by
    have := congrArg FileView.size hview
    simp only [Vol.cut, Vol.setView, Function.update_self] at this
    exact this
  have hfits : (readXfer p 1).uio.Fits := ⟨⟨Nat.le_refl _, show 1 < 2 ^ 32 by decide⟩, Int.natCast_nonneg p⟩
  obtain ⟨r, s'', hread, hgood, -⟩ := (sfsIo_read hr hv hfits rfl (show p < 2 ^ 31 by omega) (by omega)).returns
  have hpos : (readXfer p 1).uio.pos = p := rfl
  have hquiet : s'.withFaults [] = s' := by
    unfold Sfs.withFaults
    rw [← hr.calm trivial]
  obtain rfl := hgood (Or.inr (show p + 1 < 2 ^ 31 by omega))
  have hmin : min (readXfer p 1).uio.uioResid ((s'.inode i).sfiSize - (readXfer p 1).uio.pos) = 1 := by
    rw [hpos, hsize]
    exact Nat.min_eq_left (show 1 ≤ 73216 - p by omega)
  rw [hmin] at hread
  refine ⟨[], readXfer p 1, _, _, s'', hfits, rfl, by rw [hquiet]; exact hread, Nat.le_refl _, ?_, ?_⟩
  · show p < ((readXfer p 1).uio.skip 1).pos
    rw [hfits.pos_skip, hpos]
    exact Nat.lt_succ_self p
  · rw [← hbytes]
    simp only [Xfer.get, copyBytes, hpos, Nat.sub_self, Nat.add_zero, Nat.le_refl, true_and]
    rw [if_pos (Nat.lt_succ_self _)]

/-- After a file has been cut to `len` bytes, no later truncation or write makes a
byte from there on read as anything but zero unless it was written since,
exactly if all such bytes in the blocks that the file keeps are zero. -/
theorem cut_data_gone_iff (h : Owned own s) (hv : s.vnode i = some sv)
    (he : sfsTruncate i len s = .ok (.ok (), s₁)) :
    (∀ s' W, Later i s₁ W s' → ∀ p v, len ≤ p → ¬ W p → ReadsBack s' i p v → v = 0) ↔
      ∀ p, len ≤ p → ¬ Discards (blocklen len) (p / sfsBlocksize) → s.byte i p = 0 := by
  have hl : (s.vol own).Loaded i := h.rep.loaded hv
  obtain ⟨own₁, h₁, -⟩ := (truncate_rep h.rep hl len).ok he
  have hbytes : ∀ p, (((s.vol own).cut i len).view i).bytes p =
      if Discards (blocklen len) (p / sfsBlocksize) then 0 else s.byte i p := by
    intro p
    simp only [Vol.cut, Vol.setView, Function.update_self]
    rfl
  constructor
  · intro hgone p hp hd
    by_cases hlt : p < sfsMaxbytes
    · obtain ⟨s', hlater, hr⟩ := h₁.comes_back (i := i) hl hlt
      rw [hbytes, if_neg hd] at hr
      exact hgone s' _ hlater p _ hp id hr
    · exact if_neg fun hc => hlt hc.1
  · intro hz s' W hlater p v hp hW hr
    have hnothing : NothingPast i len (fun _ => False) s₁ := by
      refine ⟨_, ⟨own₁, h₁, False.elim⟩, hl, fun p hp _ => ?_⟩
      rw [hbytes]
      split
      · rfl
      · rename_i hd
        exact hz p hp hd
    obtain ⟨a, ⟨own', hr', -⟩, hl', hz'⟩ := hlater.nothingPast hnothing
    rw [hr'.reads_back hl' hr]
    exact hz' p hp hW

end

theorem cut_data_gone_zeros : ∃ s₁, sfsTruncate 3 (1 : Nat) (oneBlock 2 zeroBlock) = .ok (.ok (), s₁) ∧
    ∀ s' W, Later 3 s₁ W s' → ∀ p v, 1 ≤ p → ¬ W p → ReadsBack s' 3 p v → v = 0 := by
  refine ⟨_, rfl, (cut_data_gone_iff (oneBlock_owned (by decide)) rfl rfl).mpr fun p _ _ => ?_⟩
  unfold Sfs.byte
  rw [oneBlock_ptr rfl]
  split
  · exact ite_self _
  · exact if_neg fun hc => hc.2 rfl

set_option maxRecDepth 4000 in
theorem cut_byte_comes_back : Owned oneOwner (oneBlock 2 fun _ => 7) ∧
    ∃ s₁ s₂ y s₃, sfsTruncate 3 (1 : Nat) (oneBlock 2 fun _ => 7) = .ok (.ok (), s₁) ∧
      sfsTruncate 3 (2 : Nat) s₁ = .ok (.ok (), s₂) ∧ sfsIo 3 (readXfer 1 1) s₂ = .ok (.ok (none, y), s₃) ∧
      y.uio.uioResid = 0 ∧ y.buf 0 = 7 :=
  ⟨oneBlock_owned (by decide), _, _, _, _, rfl, rfl, rfl, rfl, rfl⟩

end Os161
