import Os161.CutSound
import Os161.DirSound
import Os161.LifetimeSound

/-!
# Vnodes come and go

`sfs_loadvnode` gives a reference to a file and loads it if need be; the last
reference writes the inode back and takes the vnode out of memory, and with it
a file that has no link.
-/

namespace Os161

open Bytes Proc

section
variable {c : Prop} {own : Nat → BlockOwner} {s s' : Sfs} {a : Vol} {b i j n : Nat} {sv : SfsVnode} {m : Mem}
  {v : VnodeCounts} {f : SfsVnode → SfsVnode} {E : Errno → Sfs → Prop} {K : FsPanic → Prop}

theorem RepAt.congr {a' : Vol} (h : RepAt c own s a) (hlive : ∀ j, a'.live j ↔ a.live j)
    (hview : ∀ j, a.live j → a'.view j = a.view j) (htable : a'.table = a.table) : RepAt c own s a' :=
  ⟨h.owned, fun j => (hlive j).trans (h.live j), fun j hj => (h.view j ((hlive j).mp hj)).trans
    (hview j ((hlive j).mp hj)).symm, h.table.trans htable.symm, h.calm⟩

theorem RepAt.image (h : RepAt c own s a) (hs : SameFiles own s s')
    (hdisk : ∀ b, own b ≠ .system → own b ≠ .inode → s'.disk b = s.disk b) (hcalm : c → s'.faults = []) :
    RepAt c own s' { a with table := s'.table } := by
  have ho := h.owned
  have hptr : ∀ i n, own i = .inode → s'.ptr i n = s.ptr i n := fun i n hi => by
    unfold Sfs.ptr
    rw [hs.inode i hi]
    refine Inode.ptr_congr fun hz => hdisk _ ?_ ?_ <;> rw [ho.indirect_own hi hz] <;> simp
  refine ⟨ho.image hs hptr, h.live, fun i hi => ?_, rfl, hcalm⟩
  have hown := (h.live i).mp hi
  rw [← h.view i hi]
  refine view_congr (hs.inode i hown) (byte_congr (fun n _ => hptr i n hown) fun n hn hp => hdisk _ ?_ ?_) <;>
    rw [ho.ptr_own hown hn hp] <;> simp

theorem RepAt.vnodes {l : List SfsVnode} (h : RepAt c own s a)
    (hin : ∀ j, ({ s with sfsVnodes := l } : Sfs).inode j = s.inode j)
    (hvn : ∀ sv ∈ l, own sv.svIno = .inode ∧ (sv.svDirty = false → readInode (s.disk sv.svIno) = sv.svI))
    (hnodup : (l.map SfsVnode.svIno).Nodup) :
    RepAt c own { s with sfsVnodes := l } { a with table := ({ s with sfsVnodes := l } : Sfs).table } :=
  h.image ⟨rfl, ⟨rfl, rfl, rfl⟩, fun j _ => hin j, fun _ _ => rfl, hvn, hnodup, rfl, h.owned.superdirty, h.owned.map⟩
    (fun _ _ _ => rfl) h.calm

/-! ## Writing an inode back -/

section
variable (h : Owned own s) (hv : s.vnode i = some sv)
include h hv

omit h in
theorem inode_writeInode (j : Nat) : (s.write i m).inode j = s.inode j := by
  by_cases hji : j = i
  · exact inode_write (Or.inr (by rw [hji, hv]; simp))
  · exact inode_write (Or.inl fun e => hji e.symm)

theorem disk_writeInode (hb : own b ≠ .inode) : (s.write i m).disk b = s.disk b := by
  have hne : b ≠ i := fun e => hb (e ▸ h.vnode_own hv)
  exact Function.update_of_ne hne _ _

end

theorem RepAt.writeInode (h : RepAt c own s a) (hv : s.vnode i = some sv) (hd : sv.svDirty = true) :
    RepAt c own (s.write i m) a := by
  have hsys : ∀ b, SystemBlock s.nblocks b → (s.write i m).disk b = s.disk b := fun b hb =>
    disk_writeInode h.owned hv (by rw [(h.owned.system b).mpr hb]; simp)
  have hsame : SameFiles own s (s.write i m) := ⟨rfl, ⟨rfl, rfl, rfl⟩, fun j _ => inode_writeInode hv j, fun _ _ => rfl,
    fun sv' hsv' => ⟨h.owned.loaded sv' hsv', fun hd' => ?_⟩, h.owned.nodup, hsys _ (Or.inl rfl), h.owned.superdirty,
    fun hd b hb => h.owned.map_congr hsys hd hb⟩
  · exact (h.image hsame (fun b _ hb => disk_writeInode h.owned hv hb) h.calm).congr (fun _ => Iff.rfl) (fun _ _ => rfl)
      h.table.symm
  · have hne : sv'.svIno ≠ i := by
      intro e
      have hget := Table.get_of_mem h.owned.nodup hsv'
      rw [e] at hget
      obtain rfl : sv' = sv := Option.some_inj.mp (hget.symm.trans hv)
      rw [hd] at hd'
      cases hd'
    rw [show (s.write i m).disk sv'.svIno = s.disk sv'.svIno from Function.update_of_ne hne _ _]
    exact h.owned.clean sv' hsv' hd'

theorem RepAt.modifySame (h : RepAt c own s a) (hv : s.vnode i = some sv)
    (hf : ∀ x, (f x).svIno = x.svIno ∧ (f x).svV = x.svV) (hi : (f sv).svI = sv.svI)
    (hclean : (f sv).svDirty = false → readInode (s.disk i) = sv.svI) : RepAt c own (s.modifySv i f) a := by
  have hfits := h.owned.inodeFits (h.owned.vnode_own hv)
  have hview := h.view i (h.live_of_loaded (h.loaded hv))
  rw [vnode_inode hv] at hfits
  have hrep := h.modifyInode hv hf (by rw [hi]) (by rw [hi]) (by rw [hi]; exact hfits.size) (by rw [hi])
    (by rw [hi]; exact hfits.linkcount) (by rw [hi]; exact hclean)
  have hsame : a.setView i { a.view i with size := (f sv).svI.sfiSize, linkcount := (f sv).svI.sfiLinkcount } = a := by
    rw [hi, ← vnode_inode hv, ← hview]
    unfold Vol.setView
    rw [show ({ s.view i with size := (s.inode i).sfiSize, linkcount := (s.inode i).sfiLinkcount } : FileView) =
      a.view i from hview, Function.update_eq_self]
  rwa [hsame] at hrep

theorem syncInode_spec (h : RepAt c own s a) (hl : a.Loaded i) :
    wp (sfsSyncInode i)
      (fun _ s' => RepAt c own s' a ∧ (∃ sv, s'.vnode i = some sv ∧ sv.svDirty = false) ∧ s'.inode i = s.inode i ∧
        ∀ n, s'.ptr i n = s.ptr i n)
      (fun _ _ => False) (fun _ => False) s := by
  obtain ⟨sv, hv⟩ := h.vnode hl
  have hi := h.owned.vnode_own hv
  unfold sfsSyncInode
  rw [wp_bind, wp_getSv hv]
  by_cases hd : sv.svDirty = true
  · rw [if_pos hd, wp_bind]
    refine (h.wblock (h.owned.lt_nblocks (by rw [hi]; simp))).mpr ?_
    rw [wp_modifySv]
    have hv' : (s.write i (inodeBlock sv.svI)).vnode i = some sv := hv
    have hfits := h.owned.inodeFits hi
    rw [vnode_inode hv] at hfits
    have hrep := (h.writeInode (m := inodeBlock sv.svI) hv hd).modifySame
      (f := fun sv => { sv with svDirty := false }) hv' (fun _ => ⟨rfl, rfl⟩) rfl fun _ => by
        show readInode (Function.update s.disk i (inodeBlock sv.svI) i) = sv.svI
        rw [Function.update_self]
        exact readInode_inodeBlock hfits
    have hin : ((s.write i (inodeBlock sv.svI)).modifySv i fun sv => { sv with svDirty := false }).inode i =
        s.inode i :=
      (inode_modifySv (f := fun sv => { sv with svDirty := false }) (fun _ => rfl) hv').trans (vnode_inode hv).symm
    refine ⟨hrep, ⟨_, vnode_modifySv (fun _ => rfl) hv', rfl⟩, hin, fun n => ?_⟩
    unfold Sfs.ptr
    rw [hin]
    refine Inode.ptr_congr fun hz => ?_
    have hne : own (s.inode i).sfiIndirect ≠ .inode := by
      rw [h.owned.indirect_own hi hz]
      simp
    exact disk_writeInode h.owned hv hne
  · rw [if_neg hd]
    exact ⟨h, ⟨sv, hv, by simpa using hd⟩, rfl, fun _ => rfl⟩

/-! ## Leaving the memory -/

def Sfs.unload (s : Sfs) (i : Nat) : Sfs := { s with sfsVnodes := Table.remove SfsVnode.svIno s.sfsVnodes i }

theorem table_unload : (s.unload i).table = Table.remove Prod.fst s.table i :=
  Table.map_remove fun _ => rfl

theorem inode_unload_of_ne (hj : j ≠ i) : (s.unload i).inode j = s.inode j := by
  unfold Sfs.inode
  rw [show (s.unload i).vnode j = s.vnode j from Table.get_remove_of_ne hj]
  rfl

theorem inode_unload (h : Owned own s) (hv : s.vnode i = some sv) (hd : sv.svDirty = false) (j : Nat) :
    (s.unload i).inode j = s.inode j := by
  by_cases hj : j = i
  · subst hj
    have hkey : sv.svIno = j := Table.get_key hv
    have hclean := h.clean sv (Table.get_mem hv) hd
    rw [hkey] at hclean
    rw [vnode_inode hv, ← hclean, Sfs.inode, show (s.unload j).vnode j = none from Table.get_remove_self h.nodup]
    rfl
  · exact inode_unload_of_ne hj

theorem RepAt.unload (h : RepAt c own s a) (hv : s.vnode i = some sv) (hd : sv.svDirty = false)
    (hlink : (a.view i).linkcount ≠ 0) : RepAt c own (s.unload i) (a.unload i) := by
  have hmem : ∀ sv' ∈ (s.unload i).sfsVnodes, sv' ∈ s.sfsVnodes := fun sv' hsv' =>
    ((Table.mem_remove h.owned.nodup).mp hsv').1
  have htable : (s.unload i).table = (a.unload i).table := by
    rw [table_unload, h.table]
    rfl
  have hvnodes := h.vnodes (inode_unload h.owned hv hd)
    (fun sv' hsv' => ⟨h.owned.loaded sv' (hmem sv' hsv'), h.owned.clean sv' (hmem sv' hsv')⟩)
    (Table.nodup_remove h.owned.nodup)
  exact hvnodes.congr (fun _ => and_iff_left fun _ => hlink) (fun _ _ => rfl) htable.symm

section
variable {x : BlockOwner} (h : Owned own s)
include h

-- a file without blocks comes or goes: no block changes its owner
theorem Owned.data_blank (hi : ∀ j n, own i ≠ .data j n) (hx : ∀ j n, x ≠ .data j n)
    (hptr : ∀ j n, j ≠ i → s'.ptr j n = s.ptr j n) (h0 : own i = .inode → ∀ n < sfsMaxblocks, s.ptr i n = 0)
    (h0' : x = .inode → ∀ n < sfsMaxblocks, s'.ptr i n = 0) (b j n : Nat) :
    Function.update own i x b = .data j n ↔
      Function.update own i x j = .inode ∧ n < sfsMaxblocks ∧ s'.ptr j n = b ∧ b ≠ 0 := by
  have hb : Function.update own i x b = .data j n ↔ own b = .data j n := by
    by_cases hbi : b = i
    · rw [hbi, Function.update_self]
      exact iff_of_false (hx j n) (hi j n)
    · rw [Function.update_of_ne hbi]
  rw [hb, h.data]
  by_cases hj : j = i
  · rw [hj, Function.update_self]
    exact iff_of_false (fun e => e.2.2.2 (e.2.2.1.symm.trans (h0 e.1 n e.2.1)))
      fun e => e.2.2.2 (e.2.2.1.symm.trans (h0' e.1 n e.2.1))
  · rw [Function.update_of_ne hj, hptr j n hj]

theorem Owned.indirect_blank (hi : ∀ j, own i ≠ .indirect j) (hx : ∀ j, x ≠ .indirect j)
    (hin : ∀ j, j ≠ i → s'.inode j = s.inode j) (h0 : own i = .inode → (s.inode i).sfiIndirect = 0)
    (h0' : x = .inode → (s'.inode i).sfiIndirect = 0) (b j : Nat) :
    Function.update own i x b = .indirect j ↔
      Function.update own i x j = .inode ∧ (s'.inode j).sfiIndirect = b ∧ b ≠ 0 := by
  have hb : Function.update own i x b = .indirect j ↔ own b = .indirect j := by
    by_cases hbi : b = i
    · rw [hbi, Function.update_self]
      exact iff_of_false (hx j) (hi j)
    · rw [Function.update_of_ne hbi]
  rw [hb, h.indirect]
  by_cases hj : j = i
  · rw [hj, Function.update_self]
    exact iff_of_false (fun e => e.2.2 (e.2.1.symm.trans (h0 e.1))) fun e => e.2.2 (e.2.1.symm.trans (h0' e.1))
  · rw [Function.update_of_ne hj, hin j hj]

end

theorem RepAt.free (h : RepAt c own s a) (hv : s.vnode i = some sv) (hroot : i ≠ sfsRootLocation)
    (hid : (s.inode i).sfiIndirect = 0) (hptr : ∀ n < sfsMaxblocks, s.ptr i n = 0) (hlink : (a.view i).linkcount = 0) :
    RepAt c (Function.update own i .free) ((s.setMark i false).unload i) (a.unload i) := by
  have hi := h.owned.vnode_own hv
  have hin : ∀ j, j ≠ i → ((s.setMark i false).unload i).inode j = s.inode j := fun j hj => inode_unload_of_ne hj
  have hptr' : ∀ j n, j ≠ i → ((s.setMark i false).unload i).ptr j n = s.ptr j n := fun j n hj => by
    rw [Sfs.ptr, hin j hj]
    rfl
  have hlive : ∀ j, Function.update own i .free j = .inode ↔ own j = .inode ∧ j ≠ i := by
    intro j
    by_cases hj : j = i
    · rw [hj, Function.update_self]
      exact ⟨by simp, fun e => absurd rfl e.2⟩
    · rw [Function.update_of_ne hj]
      exact (and_iff_left hj).symm
  have hmem : ∀ sv' ∈ ((s.setMark i false).unload i).sfsVnodes, sv' ∈ s.sfsVnodes ∧ sv'.svIno ≠ i := fun sv' hsv' =>
    (Table.mem_remove h.owned.nodup).mp hsv'
  refine ⟨{ h.owned with
    root := (hlive _).mpr ⟨h.owned.root, hroot.symm⟩
    marked := fun b hb => ?_
    system := fun b => ?_
    data := h.owned.data_blank (by rw [hi]; simp) (by simp) hptr' (fun _ => hptr) (by simp)
    indirect := h.owned.indirect_blank (by rw [hi]; simp) (by simp) hin (fun _ => hid) (by simp)
    loaded := fun sv' hsv' => (hlive _).mpr ⟨h.owned.loaded sv' (hmem sv' hsv').1, (hmem sv' hsv').2⟩
    nodup := Table.nodup_remove h.owned.nodup
    clean := fun sv' hsv' hd' => h.owned.clean sv' (hmem sv' hsv').1 hd'
    inodes := fun j hj => by
      obtain ⟨hj, hji⟩ := (hlive j).mp hj
      rw [hin j hji]
      exact h.owned.inodes j hj
    map := fun hd => by cases hd }, fun j => ?_, fun j hj => ?_, ?_, h.calm⟩
  · show Function.update s.sfsFreemap i false b = true ↔ _
    by_cases hbi : b = i
    · rw [hbi, Function.update_self, Function.update_self]
      simp
    · rw [Function.update_of_ne hbi, Function.update_of_ne hbi]
      exact h.owned.marked b hb
  · by_cases hbi : b = i
    · rw [hbi, Function.update_self]
      refine ⟨by simp, fun hs => ?_⟩
      rw [(h.owned.system i).mpr hs] at hi
      cases hi
    · rw [Function.update_of_ne hbi]
      exact h.owned.system b
  · show a.live j ∧ _ ↔ _
    rw [h.live j, hlive]
    exact and_congr_right fun _ => ⟨fun hj e => hj e hlink, fun hj e => absurd e hj⟩
  · have hji : j ≠ i := fun e => hj.2 e hlink
    rw [← show s.view j = (a.unload i).view j from h.view j hj.1]
    exact view_congr (hin j hji) (byte_congr (fun n _ => hptr' j n hji) fun _ _ _ => rfl)
  · rw [table_unload, show (s.setMark i false).table = a.table from h.table]
    rfl

/-! ## References -/

def SfsVnode.setCounts (v : VnodeCounts) (sv : SfsVnode) : SfsVnode := { sv with svV := v }

theorem RepAt.setCounts (h : RepAt c own s a) (hv : s.vnode i = some sv) (v : VnodeCounts) :
    RepAt c own (s.modifySv i (SfsVnode.setCounts v)) (a.setCounts i v) := by
  have hfits := h.owned.inodeFits (h.owned.vnode_own hv)
  rw [vnode_inode hv] at hfits
  have hkey : sv.svIno = i := Table.get_key hv
  obtain ⟨hown, hptr⟩ := h.owned.modifySv (f := SfsVnode.setCounts v) (fun _ => rfl) hv rfl rfl hfits.size
    rfl hfits.linkcount fun hd => by
      have := h.owned.clean sv (Table.get_mem hv) hd
      rwa [hkey] at this
  have hin : ∀ j, (s.modifySv i (SfsVnode.setCounts v)).inode j = s.inode j := by
    intro j
    by_cases hj : j = i
    · rw [hj, inode_modifySv (f := SfsVnode.setCounts v) (fun _ => rfl) hv, vnode_inode hv]
      rfl
    · exact inode_modifySv_of_ne (fun _ => rfl) hj
  refine ⟨hown, h.live, fun j hj => ?_, ?_, h.calm⟩
  · rw [← show s.view j = (a.setCounts i v).view j from h.view j hj]
    exact view_congr (hin j) (byte_congr (fun n _ => hptr j n) fun _ _ _ => rfl)
  · unfold Vol.setCounts
    rw [← h.table]
    exact Table.modify_map (fun _ => rfl) fun _ _ _ => rfl

def Sfs.append (s : Sfs) (sv : SfsVnode) : Sfs := { s with sfsVnodes := s.sfsVnodes ++ [sv] }

theorem vnode_append_self (hno : s.vnode sv.svIno = none) : (s.append sv).vnode sv.svIno = some sv :=
  Table.get_append_of_none hno

theorem vnode_append_of_ne (hj : j ≠ sv.svIno) : (s.append sv).vnode j = s.vnode j := Table.get_append_of_ne hj

theorem table_append : (s.append sv).table = s.table ++ [(sv.svIno, sv.svV)] := by
  simp [Sfs.table, Sfs.append]

theorem vnode_none (h : Owned own s) (hi : own i ≠ .inode) : s.vnode i = none := by
  cases hv : s.vnode i with
  | none => rfl
  | some sv => exact absurd (h.vnode_own hv) hi

theorem RepAt.append (h : RepAt c own s a) (hi : own i = .inode) (hno : s.vnode i = none) :
    RepAt c own (s.append { svV := vnodeInit, svI := readInode (s.disk i), svIno := i, svDirty := false })
      { a with table := a.table ++ [(i, vnodeInit)] } := by
  generalize hsv : ({ svV := vnodeInit, svI := readInode (s.disk i), svIno := i, svDirty := false } : SfsVnode) = sv
  have hino : sv.svIno = i := by rw [← hsv]
  have hin : ∀ j, (s.append sv).inode j = s.inode j := by
    intro j
    unfold Sfs.inode
    by_cases hj : j = i
    · have hself : (s.append sv).vnode i = some sv := by
        have hget := vnode_append_self (show s.vnode sv.svIno = none by rwa [hino])
        rwa [hino] at hget
      rw [hj, hself, hno, ← hsv]
    · rw [vnode_append_of_ne (by rwa [hino])]
      rfl
  have hmem : ∀ sv' ∈ (s.append sv).sfsVnodes, sv' ∈ s.sfsVnodes ∨ sv' = sv := fun sv' hsv' => by
    simpa [Sfs.append] using hsv'
  have hvnodes := h.vnodes hin (fun sv' hsv' => ?_) (Table.nodup_append h.owned.nodup (by rwa [hino]))
  · refine hvnodes.congr (fun _ => Iff.rfl) (fun _ _ => rfl) (Eq.symm (table_append.trans ?_))
    rw [h.table, ← hsv]
  · rcases hmem sv' hsv' with hsv' | rfl
    · exact ⟨h.owned.loaded sv' hsv', h.owned.clean sv' hsv'⟩
    · rw [hino, ← hsv]
      exact ⟨hi, fun _ => rfl⟩

theorem scanVnodes_spec {l : List SfsVnode} {Q : Bool → Sfs → Prop} (h : Owned own s)
    (hl : ∀ sv ∈ l, own sv.svIno = .inode)
    (hQ : Q (l.any fun sv => sv.svIno == i) s) : wp (scanVnodes i l) Q E K s := by
  induction l with
  | nil => exact hQ
  | cons sv l ih =>
    have hown := hl sv List.mem_cons_self
    unfold scanVnodes
    rw [wp_bind, wp_bused h (by rw [hown]; simp) (by rw [hown]; simp)]
    rw [List.any_cons] at hQ
    by_cases hi : sv.svIno = i
    · rw [beq_iff_eq.mpr hi, Bool.true_or] at hQ
      simpa [hi] using hQ
    · rw [beq_eq_false_iff_ne.mpr hi, Bool.false_or] at hQ
      have hrest := ih (fun sv' hsv' => hl sv' (List.mem_cons_of_mem _ hsv')) hQ
      simpa [hi] using hrest

theorem any_vnode : (s.sfsVnodes.any fun sv => sv.svIno == i) = (s.vnode i).isSome := by
  unfold Sfs.vnode Table.get
  rw [Bool.eq_iff_iff, List.find?_isSome, List.any_eq_true]

theorem RepAt.kmalloc {α : Type} {Q : α → Sfs → Prop} {p : SfsM α} (h : RepAt c own s a)
    (hE : ∀ e s', ¬ c → (e = Errno.eio ∨ e = Errno.enomem) → RepAt c own s' a → E e s')
    (hp : ∀ s', Reads c s s' → wp p Q E K s') :
    wp (do
      if ← Os161.nextFault then throw .enomem
      p) Q E K s := by
  rw [wp_bind]
  refine h.nextFault ?_ fun hc => ?_
  · rw [if_neg Bool.false_ne_true]
    exact hp _ h.reads_rest
  · exact hE _ _ hc (Or.inr rfl) h.rest

theorem RepAt.readVnode {Q : Unit → Sfs → Prop} {forcetype : Nat} {x : Inode × Bool} (h : RepAt c own s a)
    (hs : own i ≠ .system) (hf : own i ≠ .free) (hforce : forceType (readInode (s.disk i)) forcetype = pure x)
    (htype : x.1.sfiType = sfsTypeFile ∨ x.1.sfiType = sfsTypeDir)
    (hQ : ∀ s', Reads c s s' → Q () (s'.append { svV := vnodeInit, svI := x.1, svIno := i, svDirty := x.2 }))
    (hE : ∀ e s', ¬ c → (e = Errno.eio ∨ e = Errno.enomem) → RepAt c own s' a → E e s') :
    wp (Os161.readVnode i forcetype) Q E K s := by
  have hok : ¬ (x.1.sfiType ≠ sfsTypeFile ∧ x.1.sfiType ≠ sfsTypeDir) := fun hn => htype.elim hn.1 hn.2
  unfold Os161.readVnode
  refine h.kmalloc hE fun s₁ hr₁ => ?_
  have h₁ := h.reads hr₁
  have hdisk : s₁.disk = s.disk := by
    obtain ⟨f, rfl, -⟩ := hr₁
    rfl
  rw [wp_bind, wp_bused h₁.owned hs hf]
  simp only [Bool.true_eq_false, if_false, wp_bind]
  refine h₁.rblock (h₁.owned.lt_nblocks hs) ?_ fun hc => hE _ _ hc (Or.inl rfl) h₁.rest
  rw [hdisk, wp_bind, hforce, wp_pure, if_neg hok]
  refine h₁.rest.kmalloc hE fun s₂ hr₂ => (h₁.rest.reads hr₂).kmalloc hE fun s₃ hr₃ => ?_
  exact hQ s₃ (((hr₁.trans h₁.reads_rest).trans hr₂).trans hr₃)

def LoadvnodeFails (c : Prop) (a : Vol) (e : Errno) (s : Sfs) : Prop := ¬ c ∧ (e = .eio ∨ e = .enomem) ∧ Rep c s a

theorem RepAt.modifyCounts {f : VnodeCounts → VnodeCounts} (h : RepAt c own s a) (hv : s.vnode i = some sv) :
    RepAt c own (s.modifySv i fun sv => { sv with svV := f sv.svV }) (a.setCounts i (f sv.svV)) := by
  have hset := h.setCounts hv (f sv.svV)
  have hsame : (fun sv : SfsVnode => { sv with svV := f sv.svV }) sv = SfsVnode.setCounts (f sv.svV) sv := rfl
  unfold Sfs.modifySv at hset ⊢
  rwa [Table.modify_congr h.owned.nodup hv hsame]

theorem Rep.root_live (h : Rep c s a) : a.live sfsRootLocation := by
  obtain ⟨own, h, -⟩ := h
  exact (h.live _).mpr h.owned.root

theorem loadvnode_spec (h : Rep c s a) (hlive : a.live i) :
    wp (sfsLoadvnode i sfsTypeInval) (fun _ s' => Rep c s' (a.load i))
      (fun e s' => a.counts i = none ∧ LoadvnodeFails c a e s') (fun _ => False) s := by
  obtain ⟨own, h, ht⟩ := h
  have hi := (h.live i).mp hlive
  unfold sfsLoadvnode
  rw [wp_bind, wp_get, wp_bind]
  refine scanVnodes_spec h.owned h.owned.loaded ?_
  rw [any_vnode]
  unfold Vol.load
  rw [h.counts i]
  cases hv : s.vnode i with
  | some sv =>
    simp only [Option.isSome_some, if_true, wp_bind, Option.map_some]
    rw [wp_assertFs rfl, wp_modifySv]
    exact ⟨own, h.modifyCounts hv, ht⟩
  | none =>
    have htype := h.owned.type i hi
    unfold Sfs.inode at htype
    rw [hv] at htype
    rw [Option.isSome_none, if_neg Bool.false_ne_true]
    refine h.readVnode (by rw [hi]; simp) (by rw [hi]; simp) (if_neg (not_not.mpr rfl)) ?_ (fun s' hr => ?_)
      fun e s' hc he h' => ⟨rfl, hc, he, own, h', ht⟩
    · rw [htype]
      split
      · exact Or.inr rfl
      · exact Or.inl rfl
    · have h' := h.reads hr
      obtain ⟨f, rfl, -⟩ := hr
      exact ⟨own, h'.append hi hv, ht⟩

/-! ## A new file -/

theorem readInode_zeroBlock :
    readInode zeroBlock =
      { sfiSize := 0, sfiType := 0, sfiLinkcount := 0, sfiDirect := fun _ => 0, sfiIndirect := 0 } := by
  unfold readInode
  simp only [getBE_zeroBlock]

def newInode (type : Nat) : Inode :=
  { sfiSize := 0, sfiType := type, sfiLinkcount := 0, sfiDirect := fun _ => 0, sfiIndirect := 0 }

theorem view_make_self {type : Nat} :
    (a.make b type).view b = { size := 0, type := type, linkcount := 0, bytes := fun _ => 0 } :=
  Function.update_self _ _ _

theorem view_make_of_ne {type : Nat} (hj : j ≠ b) : (a.make b type).view j = a.view j := Function.update_of_ne hj _ _

theorem RepAt.make (h : RepAt c own s a) (hb : own b = .taken) :
    RepAt c (Function.update own b .inode)
      (s.append { svV := vnodeInit, svI := newInode sfsTypeFile, svIno := b, svDirty := true })
      (a.make b sfsTypeFile) := by
  generalize hsv : ({ svV := vnodeInit, svI := newInode sfsTypeFile, svIno := b, svDirty := true } : SfsVnode) = sv
  have hino : sv.svIno = b := by rw [← hsv]
  have hno : s.vnode sv.svIno = none := vnode_none h.owned (by rw [hino, hb]; simp)
  have hin : ∀ j, j ≠ b → (s.append sv).inode j = s.inode j := by
    intro j hj
    unfold Sfs.inode
    rw [vnode_append_of_ne (by rwa [hino])]
    rfl
  have hptr : ∀ j n, j ≠ b → (s.append sv).ptr j n = s.ptr j n := fun j n hj => by
    rw [Sfs.ptr, hin j hj]
    rfl
  have hself : (s.append sv).inode b = newInode sfsTypeFile := by
    have hget := vnode_append_self hno
    rw [hino] at hget
    rw [vnode_inode hget, ← hsv]
  have hptr0 : ∀ n, (s.append sv).ptr b n = 0 := fun n => by
    rw [Sfs.ptr, hself]
    unfold Inode.ptr newInode
    simp
  have hlive : ∀ j, Function.update own b .inode j = .inode ↔ own j = .inode ∨ j = b := by
    intro j
    by_cases hj : j = b
    · rw [hj, Function.update_self]
      simp
    · rw [Function.update_of_ne hj]
      simp [hj]
  have hroot : sfsRootLocation ≠ b := fun e => by
    have := h.owned.root
    rw [e, hb] at this
    cases this
  have hne : ∀ j, own j = .inode → j ≠ b := fun j hj e => by
    rw [e, hb] at hj
    cases hj
  have hmem : ∀ sv' ∈ (s.append sv).sfsVnodes, sv' ∈ s.sfsVnodes ∨ sv' = sv := fun sv' hsv' => by
    simpa [Sfs.append] using hsv'
  obtain ⟨hmarked, hsystem⟩ := h.owned.use (x := .inode) hb (by simp) (by simp)
  refine ⟨{ h.owned with
    root := (hlive _).mpr (Or.inl h.owned.root)
    marked := hmarked
    system := hsystem
    data := h.owned.data_blank (by rw [hb]; simp) (by simp) hptr (by rw [hb]; simp) fun _ n _ => hptr0 n
    indirect := h.owned.indirect_blank (by rw [hb]; simp) (by simp) hin (by rw [hb]; simp) fun _ => by rw [hself]; rfl
    loaded := fun sv' hsv' => ?_
    nodup := Table.nodup_append h.owned.nodup hno
    clean := fun sv' hsv' hd => ?_
    inodes := fun j hj => ?_ }, fun j => ?_, fun j hj => ?_, ?_, h.calm⟩
  · rcases hmem sv' hsv' with hsv' | rfl
    · exact (hlive _).mpr (Or.inl (h.owned.loaded sv' hsv'))
    · exact (hlive _).mpr (Or.inr hino)
  · rcases hmem sv' hsv' with hsv' | rfl
    · exact h.owned.clean sv' hsv' hd
    · rw [← hsv] at hd
      cases hd
  · rcases (hlive j).mp hj with hj | rfl
    · rw [hin j (hne j hj)]
      exact h.owned.inodes j hj
    · rw [hself]
      exact ⟨Nat.two_pow_pos 32, (if_neg hroot.symm).symm, Nat.two_pow_pos 16⟩
  · rw [hlive, ← h.live j]
    rfl
  · by_cases hjb : j = b
    · subst hjb
      rw [view_make_self]
      refine FileView.ext ?_ ?_ ?_ (funext fun o => ?_)
      · exact congrArg Inode.sfiSize hself
      · exact congrArg Inode.sfiType hself
      · exact congrArg Inode.sfiLinkcount hself
      · exact if_neg fun hn => hn.2 (hptr0 _)
    · rw [view_make_of_ne hjb, ← h.view j (hj.resolve_right hjb)]
      exact view_congr (hin j hjb) (byte_congr (fun n _ => hptr j n hjb) fun _ _ _ => rfl)
  · rw [table_append, h.table, ← hsv]
    rfl

def MakeobjFails (c : Prop) (a : Vol) (e : Errno) (s : Sfs) : Prop :=
  (e = .enospc ∨ ¬ c ∧ (e = .eio ∨ e = .enomem)) ∧ Rep c s a

theorem makeobj_spec (h : Rep c s a) :
    wp (sfsMakeobj sfsTypeFile)
      (fun b s' => ¬ a.live b ∧ ¬ a.Loaded b ∧ b ≠ sfsNoino ∧ b < 2 ^ 32 ∧ Rep c s' (a.make b sfsTypeFile))
      (MakeobjFails c a) (fun _ => False) s := by
  obtain ⟨own, h, ht⟩ := h
  unfold sfsMakeobj
  refine (balloc_spec h).bind (fun b s₁ => ?_) fun e s₁ he => ?_
  · rintro ⟨hfree, hs₁, h₁⟩
    have hb : Function.update own b .taken b = .taken := Function.update_self _ _ _
    have hno : s₁.vnode b = none := vnode_none h₁.owned (by rw [hb]; simp)
    have hdisk : s₁.disk b = zeroBlock := by
      rw [hs₁]
      exact setMark_write_disk
    have hnew : ¬ a.live b := fun hl => by
      rw [h.live b, hfree] at hl
      cases hl
    have hunloaded : ¬ a.Loaded b := fun hl => hnew (h.live_of_loaded hl)
    have hsys : own b ≠ .system := by rw [hfree]; simp
    have hb0 : b ≠ sfsNoino := h.owned.ne_zero hsys
    have hlt : b < 2 ^ 32 := h.owned.lt_word hsys
    unfold sfsLoadvnode
    rw [wp_bind, wp_bind, wp_get, wp_bind]
    refine scanVnodes_spec h₁.owned h₁.owned.loaded ?_
    rw [any_vnode, hno, Option.isSome_none, if_neg Bool.false_ne_true]
    have hforce : forceType (readInode (s₁.disk b)) sfsTypeFile = pure (newInode sfsTypeFile, true) := by
      rw [hdisk, readInode_zeroBlock]
      rfl
    refine h₁.readVnode (by rw [hb]; simp) (by rw [hb]; simp) hforce (Or.inl rfl) (fun s' hr => ?_)
      fun e s' hc he h' => ⟨Or.inr ⟨hc, he⟩, _, h', fun hc' => absurd hc' hc⟩
    refine ⟨hnew, hunloaded, hb0, hlt, _, (h₁.reads hr).make hb, fun hc d hd => ?_⟩
    by_cases hdb : d = b
    · rw [hdb, Function.update_self] at hd
      cases hd
    · rw [Function.update_of_ne hdb, Function.update_of_ne hdb] at hd
      exact ht hc d hd
  · obtain ⟨rfl, rfl⟩ := he
    exact ⟨Or.inl rfl, own, h, ht⟩

/-! ## Dropping a reference -/

theorem RepAt.counts_vnode {v : VnodeCounts} (h : RepAt c own s a) (hv : a.counts i = some v) :
    ∃ sv, s.vnode i = some sv ∧ sv.svV = v := by
  rw [h.counts] at hv
  exact Option.map_eq_some_iff.mp hv

theorem wp_vopCheck {Q : SfsVnode → Sfs → Prop} (hv : s.vnode i = some sv) (hr : 0 < sv.svV.vnRefcount)
    (ho : 0 ≤ sv.svV.vnOpencount) (op : Vop) (hQ : Q sv s) : wp (vopCheck i op) Q E K s := by
  unfold vopCheck
  rw [wp_bind, wp_getSv hv, vnodeCheck_open hr ho op]
  exact hQ

theorem RepAt.linkcount (h : RepAt c own s a) (hv : s.vnode i = some sv) :
    sv.svI.sfiLinkcount = (a.view i).linkcount := by
  rw [← h.view i (h.live_of_loaded (h.loaded hv)), ← vnode_inode hv]
  rfl

theorem RepAt.inode_type_vnode (h : RepAt c own s a) (hv : s.vnode i = some sv) :
    sv.svI.sfiType = if i = sfsRootLocation then sfsTypeDir else sfsTypeFile := by
  rw [← vnode_inode hv]
  exact h.owned.type i (h.owned.vnode_own hv)

def Stuck (c : Prop) (a : Vol) (i : Nat) (s : Sfs) : Prop :=
  ¬ c ∧ (a.view i).linkcount = 0 ∧ ∃ w, w.type = (a.view i).type ∧ w.linkcount = 0 ∧ Rep c s (a.setView i w)

theorem view_setView_self {w : FileView} : (a.setView i w).view i = w := Function.update_self _ _ _

theorem view_setView_of_ne {w : FileView} (hj : j ≠ i) :
    (a.setView i w).view j = a.view j := Function.update_of_ne hj _ _

theorem kill_spec {v : VnodeCounts} (hr : v.vnRefcount = 1) (ho : v.vnOpencount = 0)
    {Q : Unit → Sfs → Prop} (hQ : Q () (s.unload i)) :
    wp (do
      let _ ← liftFs (vnodeKill v)
      Proc.modify fun s => { s with sfsVnodes := Table.remove SfsVnode.svIno s.sfsVnodes i } : SfsM Unit) Q E K s := by
  unfold vnodeKill
  rw [if_neg (not_not.mpr hr), if_neg (not_not.mpr ho)]
  exact hQ

theorem reclaim_spec {v : VnodeCounts} (h : Rep c s a) (hv : a.counts i = some v) (hr : v.vnRefcount = 1)
    (ho : v.vnOpencount = 0) (hroot : (a.view i).linkcount = 0 → i ≠ sfsRootLocation) :
    wp (vopReclaim i) (fun _ s' => Rep c s' (a.unload i)) (fun _ s' => Stuck c a i s') (fun _ => False) s := by
  obtain ⟨own, h, ht⟩ := h
  obtain ⟨sv, hsv, rfl⟩ := h.counts_vnode hv
  have hloaded := h.loaded hsv
  have hcheck : 0 < sv.svV.vnRefcount := by omega
  have hopen : 0 ≤ sv.svV.vnOpencount := by omega
  have hlink := h.linkcount hsv
  unfold vopReclaim sfsReclaim
  rw [wp_bind]
  refine wp_vopCheck hsv hcheck hopen _ ?_
  rw [wp_bind, wp_getSv hsv, if_neg (not_not.mpr hr)]
  by_cases hz : sv.svI.sfiLinkcount = 0
  · have hi := hroot (hlink ▸ hz)
    have htype := h.inode_type_vnode hsv
    rw [if_neg hi] at htype
    simp only [if_pos hz, wp_bind]
    unfold vopTruncate fileOp
    rw [wp_bind]
    refine wp_vopCheck hsv hcheck hopen _ ?_
    rw [if_neg (by rw [htype]; decide)]
    have hgone' : (a.view i).linkcount = 0 := hlink ▸ hz
    refine (truncate_zero h hloaded).mono (fun _ s₁ => ?_) (fun e s₁ he => ?_) fun _ hk => hk
    swap
    · obtain ⟨hc, -, w, hwt, hwl, hw⟩ := he
      exact ⟨hc, hgone', w, hwt, hwl.trans hgone', hw⟩
    rintro ⟨own₁, h₁, ht₁, hid, hptr⟩
    have hloaded₁ : (a.setView i { a.view i with size := 0, bytes := fun _ => 0 }).Loaded i := hloaded
    refine (syncInode_spec h₁ hloaded₁).bind (fun _ s₂ => ?_) fun _ _ he => he.elim
    rintro ⟨h₂, ⟨sv₂, hsv₂, -⟩, hin, hptr₂⟩
    have hi₂ := h₂.owned.vnode_own hsv₂
    rw [wp_bind, wp_bfree h₂.owned (by rw [hi₂]; simp) (by rw [hi₂]; simp)]
    have hgone : ((a.setView i { a.view i with size := 0, bytes := fun _ => 0 }).view i).linkcount = 0 := by
      rw [view_setView_self]
      exact hlink ▸ hz
    have hfree := h₂.free hsv₂ hi (by rw [hin, hid]) (fun n hn => by rw [hptr₂, hptr n hn]) hgone
    refine kill_spec hr ho ⟨_, hfree.congr (fun j => ?_) (fun j hj => ?_) rfl, fun hc b hb => ?_⟩
    · exact and_congr_right fun _ => imp_congr_right fun _ => by rw [hgone, hgone']
    · exact (view_setView_of_ne fun e => hj.2 e hgone).symm
    · by_cases hbi : b = i
      · rw [hbi, Function.update_self] at hb
        cases hb
      · rw [Function.update_of_ne hbi] at hb
        exact ht hc b (ht₁ b hb)
  · simp only [if_neg hz]
    refine (syncInode_spec h hloaded).bind (fun _ s₁ => ?_) fun _ _ he => he.elim
    rintro ⟨h₁, ⟨sv₁, hsv₁, hclean⟩, -, -⟩
    exact kill_spec hr ho ⟨own, h₁.unload hsv₁ hclean (hlink ▸ hz), ht⟩

theorem setCounts_self (h : Owned own s) (hv : s.vnode i = some sv) : s.modifySv i (SfsVnode.setCounts sv.svV) = s := by
  unfold Sfs.modifySv
  rw [Table.modify_congr h.nodup hv (show SfsVnode.setCounts sv.svV sv = id sv from rfl), Table.modify_id]

theorem decref_spec {v : VnodeCounts} (h : Rep c s a) (hv : a.counts i = some v) (hr : 0 < v.vnRefcount)
    (ho : v.vnRefcount = 1 → v.vnOpencount = 0)
    (hroot : v.vnRefcount = 1 → (a.view i).linkcount = 0 → i ≠ sfsRootLocation) :
    wp (decref i) (fun _ s' => Rep c s' (a.drop i) ∨ v.vnRefcount = 1 ∧ Stuck c a i s') E (fun _ => False) s := by
  obtain ⟨own, h, ht⟩ := h
  obtain ⟨sv, hsv, rfl⟩ := h.counts_vnode hv
  unfold decref vnodeDecref Vol.drop
  rw [wp_bind, wp_getSv hsv, if_neg (by omega), hv]
  by_cases h1 : 1 < sv.svV.vnRefcount
  · simp only [if_pos h1]
    exact Or.inl ⟨own, h.setCounts hsv _, ht⟩
  · have hone : sv.svV.vnRefcount = 1 := by omega
    simp only [if_neg h1]
    have hself := setCounts_self h.owned hsv
    have hreclaim := reclaim_spec ⟨own, h, ht⟩ hv hone (ho hone) (hroot hone)
    rw [wp_bind, liftFs, wp_pure, wp_bind, wp_modifySv]
    rw [show (s.modifySv i fun sv' => { sv' with svV := sv.svV }) = s from hself, if_pos rfl, wp_bind, wp_attempt]
    refine hreclaim.mono (fun _ s' h' => ?_) (fun _ s' h' => ?_) fun _ hk => hk
    · exact Or.inl h'
    · exact Or.inr ⟨hone, h'⟩

end

end Os161
