import Os161.SfsSound

/-!
# Blocks and block maps

`Rep c s a`: the volume `s` stands for `a`. Under `c` no operation fails and
no block is lost; without it, an operation that fails may leave a block that
is taken and not in use. Allocating a block for a hole of a file, or an
indirect block for it, changes nothing of what the volume holds.
-/

namespace Os161

open Bytes Proc

structure RepAt (c : Prop) (own : Nat → BlockOwner) (s : Sfs) (a : Vol) : Prop where
  owned : Owned own s
  live : ∀ i, a.live i ↔ own i = .inode
  view : ∀ i, a.live i → s.view i = a.view i
  table : s.table = a.table
  calm : c → s.faults = []

def Rep (c : Prop) (s : Sfs) (a : Vol) : Prop := ∃ own, RepAt c own s a ∧ (c → ∀ b, own b ≠ .taken)

section
variable {c : Prop} {own own' : Nat → BlockOwner} {s s' : Sfs} {a a' : Vol} {b i j n : Nat} {m : Mem} {sv : SfsVnode}
  {α : Type} {E : Errno → Sfs → Prop} {K : FsPanic → Prop}

/-! ## Rules for the basic routines -/

theorem wp_assertFs {Q : Unit → Sfs → Prop} {p : Prop} [Decidable p] {x : FsAssertion} (h : p) :
    wp (assertFs p x) Q E K s ↔ Q () s := wp_require h

theorem wp_getSv {Q : SfsVnode → Sfs → Prop} (hv : s.vnode i = some sv) : wp (getSv i) Q E K s ↔ Q sv s := by
  simp only [getSv, wp_bind, wp_get, hv, wp_pure]

theorem wp_modifySv {Q : Unit → Sfs → Prop} {f : SfsVnode → SfsVnode} :
    wp (modifySv i f) Q E K s ↔ Q () (s.modifySv i f) := Iff.rfl

theorem wp_nextFault {Q : Bool → Sfs → Prop} : wp nextFault Q E K s ↔ Q (s.faults.headD false) s.rest := by
  unfold wp nextFault Sfs.rest
  cases hf : s.faults with
  | nil =>
    have hs : s = { s with faults := [] } := by rw [← hf]
    simp only [List.headD_nil, List.tail_nil]
    rw [← hs]
  | cons x l => rfl

theorem RepAt.nextFault {Q : Bool → Sfs → Prop} (h : RepAt c own s a) (hQ : Q false s.rest) (hE : ¬ c → Q true s.rest) :
    wp nextFault Q E K s := by
  rw [wp_nextFault]
  cases hf : s.faults.headD false with
  | false => exact hQ
  | true =>
    refine hE fun hc => ?_
    rw [h.calm hc] at hf
    cases hf

theorem RepAt.rest (h : RepAt c own s a) : RepAt c own s.rest a := by
  refine { h with owned := h.owned.rest, calm := fun hc => ?_ }
  show s.faults.tail = []
  rw [h.calm hc]
  rfl

theorem RepAt.rblock {Q : Mem → Sfs → Prop} (h : RepAt c own s a) (hb : b < s.nblocks) (hQ : Q (s.disk b) s.rest)
    (hE : ¬ c → E .eio s.rest) : wp (sfsRblock b) Q E K s := by
  obtain ⟨hsec, hdev⟩ := h.owned.sector hb
  simp only [sfsRblock, wp_bind, wp_get, hsec, if_neg (Nat.not_le.mpr hdev)]
  exact h.nextFault (by simpa using hQ) fun hc => by simpa using hE hc

theorem wp_wblock {Q : Unit → Sfs → Prop} (hl : s.lost = []) (hb : sectorOf b = b ∧ b < s.dBlocks) :
    wp (sfsWblock m b) Q E K s ↔ Q () (s.write b m) := by
  obtain ⟨hsec, hdev⟩ := hb
  have hnone : nextLost s = .ok (.ok false, s) := by simp only [nextLost, hl]
  simp only [sfsWblock, wp_bind, wp_get, hsec, if_neg (Nat.not_le.mpr hdev)]
  simp only [wp, hnone]
  rfl

theorem RepAt.wblock {Q : Unit → Sfs → Prop} (h : RepAt c own s a) (hb : b < s.nblocks) :
    wp (sfsWblock m b) Q E K s ↔ Q () (s.write b m) := wp_wblock h.owned.lossless (h.owned.sector hb)

theorem keeps_rblock {R : Sfs → Sfs → Prop} (hR : ∀ s, R s s.rest) : Keeps R (sfsRblock b) := by
  intro s
  simp only [sfsRblock, wp_bind, wp_get]
  split
  · exact trivial
  rw [wp_bind, wp_nextFault]
  split <;> exact hR s

theorem keeps_wblock {R : Sfs → Sfs → Prop} (hl : ∀ s lost, R s { s with lost := lost })
    (hw : ∀ s lost, R s (({ s with lost := lost } : Sfs).write (sectorOf b) m)) : Keeps R (sfsWblock m b) := by
  intro s
  obtain ⟨x, lost, hnext⟩ : ∃ x lost, nextLost s = .ok (.ok x, { s with lost := lost }) := by
    unfold nextLost
    split
    · exact ⟨_, s.lost, rfl⟩
    · exact ⟨_, _, rfl⟩
  simp only [sfsWblock, wp_bind, wp_get]
  by_cases hb : s.dBlocks ≤ sectorOf b
  · rw [if_pos hb]
    exact trivial
  rw [if_neg hb, wp_bind, wp, hnext]
  cases x with
  | false => exact hw s lost
  | true =>
    show wp (if s.dBlocks < sectorOf (b + 1) then crash FsPanic.dIoEinval else pure ()) _ _ _ _
    split
    · exact trivial
    · exact hl s lost

theorem wp_bused {Q : Bool → Sfs → Prop} (h : Owned own s) (hs : own b ≠ .system) (hf : own b ≠ .free) :
    wp (sfsBused b) Q E K s ↔ Q true s := by
  have hm : s.sfsFreemap b = true := (h.marked b (h.lt_nbits hs)).mpr hf
  simp only [sfsBused, wp_bind, wp_get, if_neg (Nat.not_le.mpr (h.lt_nblocks hs)), wp_pure, hm]

theorem wp_bfree_marked {Q : Unit → Sfs → Prop} (hb : b < s.nbits) (hm : s.sfsFreemap b = true) :
    wp (sfsBfree b) Q E K s ↔ Q () (s.setMark b false) := by
  simp only [sfsBfree, bitmapUnmark, wp_bind, wp_get, wp_assertFs hb, wp_assertFs hm, wp_modify]
  rfl

theorem wp_bfree {Q : Unit → Sfs → Prop} (h : Owned own s) (hs : own b ≠ .system) (hf : own b ≠ .free) :
    wp (sfsBfree b) Q E K s ↔ Q () (s.setMark b false) :=
  wp_bfree_marked (h.lt_nbits hs) ((h.marked b (h.lt_nbits hs)).mpr hf)

theorem bitmapAlloc_eq_some {map : Nat → Bool} {nbits : Nat} (h : bitmapAlloc map nbits = some b) :
    b < nbits ∧ map b = false := by
  refine ⟨List.mem_range.mp (List.mem_of_find?_eq_some h), ?_⟩
  simpa using List.find?_some h

/-! ## Allocating and attaching -/

theorem RepAt.write (h : RepAt c own s a) (hb : own b = .free ∨ own b = .taken) : RepAt c own (s.write b m) a := by
  have hne : ∀ {x}, x ≠ .free → x ≠ .taken → own b ≠ x := fun hf ht e => by
    rcases hb with hb | hb <;> rw [hb] at e
    · exact hf e.symm
    · exact ht e.symm
  refine { h with
    owned := h.owned.write (hne (by simp) (by simp)) (fun _ => hne (by simp) (by simp)) (hne (by simp) (by simp))
    view := ?_ }
  intro j hj
  have hown := (h.live j).mp hj
  rw [← h.view j hj]
  have hinode : own b ≠ .inode := hne (by simp) (by simp)
  have hdata : ∀ n, own b ≠ .data j n := fun _ => hne (by simp) (by simp)
  have hin : (s.write b m).inode j = s.inode j := inode_write (Or.inl fun e => hinode (e ▸ hown))
  refine view_congr hin (byte_congr (fun n _ => ?_) fun n hn hp => ?_)
  · exact h.owned.ptr_write hown hin (hne (by simp) (by simp))
  · have hne' : s.ptr j n ≠ b := fun e => hdata n (e ▸ h.owned.ptr_own hown hn hp)
    exact Function.update_of_ne hne' _ _

theorem RepAt.relabel {x : BlockOwner} {v : Bool} (h : RepAt c own s a) (hb : own b = .free ∨ own b = .taken)
    (hx : x = .free ∧ v = false ∨ x = .taken ∧ v = true) : RepAt c (Function.update own b x) (s.setMark b v) a := by
  have hne : own b ≠ .inode := fun e => by rcases hb with hb | hb <;> rw [hb] at e <;> cases e
  have hxi : x ≠ .inode := fun e => by rcases hx with ⟨hx, -⟩ | ⟨hx, -⟩ <;> rw [hx] at e <;> cases e
  exact { h with owned := h.owned.relabel hb hx, live := fun j => (h.live j).trans (update_inode_iff hne hxi).symm }

theorem balloc_spec (h : RepAt c own s a) :
    wp sfsBalloc
      (fun b s' => own b = .free ∧ s' = (s.write b zeroBlock).setMark b true ∧
        RepAt c (Function.update own b .taken) s' a)
      (fun e s' => e = .enospc ∧ s' = s) (fun _ => False) s := by
  simp only [sfsBalloc, wp_bind, wp_get]
  cases ha : bitmapAlloc s.sfsFreemap s.nbits with
  | none => exact ⟨rfl, rfl⟩
  | some b =>
    obtain ⟨hb, hm⟩ := bitmapAlloc_eq_some ha
    have hfree : own b = .free := by
      by_contra hne
      rw [(h.owned.marked b hb).mpr hne] at hm
      cases hm
    have hs : own b ≠ .system := by rw [hfree]; simp
    have hmark : RepAt c (Function.update own b .taken) (s.setMark b true) a :=
      h.relabel (Or.inl hfree) (Or.inr ⟨rfl, rfl⟩)
    simp only [wp_bind, wp_modify, if_neg (Nat.not_le.mpr (h.owned.lt_nblocks hs)), sfsClearblock]
    refine (RepAt.wblock hmark (h.owned.lt_nblocks hs)).mpr ⟨hfree, rfl, ?_⟩
    exact (h.write (Or.inl hfree)).relabel (Or.inl hfree) (Or.inr ⟨rfl, rfl⟩)

theorem setMark_write_disk : ((s.write b m).setMark b true).disk b = m := Function.update_self _ _ _

theorem table_modifySv {f : SfsVnode → SfsVnode} (hf : ∀ x, (f x).svIno = x.svIno ∧ (f x).svV = x.svV) :
    (s.modifySv i f).table = s.table :=
  Table.map_modify _ fun x _ _ => by rw [(hf x).1, (hf x).2]

theorem view_of_inode {d d' : Inode} (hd : s.inode j = d) (hd' : s'.inode j = d') (hs : d'.sfiSize = d.sfiSize)
    (ht : d'.sfiType = d.sfiType) (hl : d'.sfiLinkcount = d.sfiLinkcount) (hb : s'.byte j = s.byte j) :
    s'.view j = s.view j := by
  simp only [Sfs.view, hd, hd', hs, ht, hl, hb]

theorem RepAt.attachDirect (h : RepAt c own s a) (hv : s.vnode i = some sv) (hb : own b = .taken)
    (hd : s.disk b = zeroBlock) {k : Fin sfsNdirect} (hz : sv.svI.sfiDirect k = 0) :
    RepAt c (Function.update own b (.data i k)) (s.modifySv i (SfsVnode.addDirect k b)) a ∧
      (s.modifySv i (SfsVnode.addDirect k b)).ptr i k = b := by
  obtain ⟨hown, hptr⟩ := h.owned.attachDirect hv hb hz
  refine ⟨⟨hown, fun j => ?_, fun j hj => ?_, ?_, h.calm⟩, by rw [hptr, if_pos ⟨rfl, rfl⟩]⟩
  · have hlive : Function.update own b (.data i k) j = .inode ↔ own j = .inode :=
      update_inode_iff (by rw [hb]; simp) (by simp)
    rw [hlive]
    exact h.live j
  · rw [← h.view j hj]
    by_cases hji : j = i
    · subst hji
      refine view_of_inode (vnode_inode hv) (inode_modifySv (fun _ => rfl) hv) rfl rfl rfl ?_
      have hz' : s.ptr j k = 0 := by
        rw [Sfs.ptr, vnode_inode hv]
        exact (dif_pos k.isLt).trans hz
      refine byte_attach (b := b) hz' hd (fun n _ => ?_) fun _ _ _ => rfl
      rw [hptr]
      simp
    · refine view_congr (inode_modifySv_of_ne (fun _ => rfl) hji) (byte_congr (fun n _ => ?_) fun _ _ _ => rfl)
      rw [hptr, if_neg fun e => hji e.1]
  · rw [← h.table]
    exact table_modifySv fun _ => ⟨rfl, rfl⟩

theorem RepAt.attachIndirect (h : RepAt c own s a) (hv : s.vnode i = some sv) (hb : own b = .taken)
    (hd : s.disk b = zeroBlock) (hz : sv.svI.sfiIndirect = 0) :
    RepAt c (Function.update own b (.indirect i)) (s.modifySv i (SfsVnode.addIndirect b)) a := by
  obtain ⟨hown, hptr⟩ := h.owned.attachIndirect hv hb hz hd
  refine ⟨hown, fun j => ?_, fun j hj => ?_, ?_, h.calm⟩
  · have hlive : Function.update own b (.indirect i) j = .inode ↔ own j = .inode :=
      update_inode_iff (by rw [hb]; simp) (by simp)
    rw [hlive]
    exact h.live j
  · rw [← h.view j hj]
    have hbytes : (s.modifySv i (SfsVnode.addIndirect b)).byte j = s.byte j :=
      byte_congr (fun n _ => hptr j n) fun _ _ _ => rfl
    by_cases hji : j = i
    · subst hji
      exact view_of_inode (vnode_inode hv) (inode_modifySv (fun _ => rfl) hv) rfl rfl rfl hbytes
    · exact view_congr (inode_modifySv_of_ne (fun _ => rfl) hji) hbytes
  · rw [← h.table]
    exact table_modifySv fun _ => ⟨rfl, rfl⟩

theorem RepAt.attachEntry (h : RepAt c own s a) (hi : own i = .inode) (hid : (s.inode i).sfiIndirect ≠ 0)
    (hb : own b = .taken) (hd : s.disk b = zeroBlock) {k : Nat} (hk : k < sfsDbperidb)
    (hz : s.ptr i (sfsNdirect + k) = 0) {g : Nat → Nat}
    (hg : ∀ l < sfsDbperidb, g l = if l = k then b else readWords (s.disk (s.inode i).sfiIndirect) l) :
    RepAt c (Function.update own b (.data i (sfsNdirect + k))) (s.write (s.inode i).sfiIndirect (wordsBlock g)) a ∧
      (s.write (s.inode i).sfiIndirect (wordsBlock g)).ptr i (sfsNdirect + k) = b := by
  obtain ⟨hown, hptr⟩ := h.owned.attachEntry hi hid hb hk hz hg
  have hind := h.owned.indirect_own hi hid
  have hdata : ∀ j n, own j = .inode → n < sfsMaxblocks → s.ptr j n ≠ 0 →
      (s.write (s.inode i).sfiIndirect (wordsBlock g)).disk (s.ptr j n) = s.disk (s.ptr j n) := fun j n hj hn hp =>
    Function.update_of_ne (fun e => by
      have := h.owned.ptr_own hj hn hp
      rw [e, hind] at this
      cases this) _ _
  refine ⟨⟨hown, fun j => ?_, fun j hj => ?_, h.table, h.calm⟩, ?_⟩
  · have hlive : Function.update own b (.data i (sfsNdirect + k)) j = .inode ↔ own j = .inode :=
      update_inode_iff (by rw [hb]; simp) (by simp)
    rw [hlive]
    exact h.live j
  · have hj' := (h.live j).mp hj
    rw [← h.view j hj]
    refine view_congr (inode_write (Or.inl fun e => by rw [e, hj'] at hind; cases hind)) ?_
    by_cases hji : j = i
    · subst hji
      refine byte_attach (b := b) hz ?_ (fun n hn => ?_) fun n hn hp => hdata j n hj' hn hp
      · refine (Function.update_of_ne (fun e => ?_) _ _).trans hd
        rw [← e, hb] at hind
        cases hind
      · rw [hptr j n hj' hn]
        simp
    · refine byte_congr (fun n hn => ?_) fun n hn hp => hdata j n hj' hn hp
      rw [hptr j n hj' hn, if_neg fun e => hji e.1]
  · rw [hptr i _ hi (Nat.add_lt_add_left hk _), if_pos ⟨rfl, rfl⟩]

/-! ## `sfs_bmap` -/

theorem wp_checkMapped {Q : Unit → Sfs → Prop} (h : Owned own s) (hi : own i = .inode) (hn : n < sfsMaxblocks)
    (hp : s.ptr i n = b) {k : Nat} : wp (checkMapped b k i) Q E K s ↔ Q () s := by
  unfold checkMapped
  by_cases hb : b = 0
  · simp [hb]
  · have hown := h.ptr_own hi hn (by rwa [hp])
    rw [hp] at hown
    simp only [ne_eq, hb, not_false_eq_true, if_true, wp_bind]
    rw [wp_bused h (by rw [hown]; simp) (by rw [hown]; simp)]
    simp

theorem ptr_direct (hv : s.vnode i = some sv) (k : Fin sfsNdirect) : s.ptr i k = sv.svI.sfiDirect k := by
  rw [Sfs.ptr, vnode_inode hv]
  exact dif_pos k.isLt

theorem ptr_indirect (hv : s.vnode i = some sv) (k : Nat) : s.ptr i (sfsNdirect + k) =
    if sv.svI.sfiIndirect = 0 then 0 else readWords (s.disk sv.svI.sfiIndirect) k := by
  rw [Sfs.ptr, vnode_inode hv, Inode.ptr, dif_neg (by omega), Nat.add_sub_cancel_left]

theorem direct_lt (k : Fin sfsNdirect) : (k : Nat) < sfsMaxblocks := Nat.lt_of_lt_of_le k.isLt (Nat.le_add_right _ _)

def Reads (c : Prop) (s s' : Sfs) : Prop := ∃ faults, s' = { s with faults := faults } ∧ (c → faults = [])

theorem Reads.ptr (h : Reads c s s') : s'.ptr i n = s.ptr i n := by
  obtain ⟨f, rfl, -⟩ := h
  rfl

theorem RepAt.reads (h : RepAt c own s a) (hr : Reads c s s') : RepAt c own s' a := by
  obtain ⟨faults, rfl, hc⟩ := hr
  exact { h with owned := { h.owned with }, calm := hc }

theorem RepAt.reads_refl (h : RepAt c own s a) : Reads c s s := ⟨s.faults, rfl, h.calm⟩

theorem RepAt.reads_rest (h : RepAt c own s a) : Reads c s s.rest := ⟨s.faults.tail, rfl, h.rest.calm⟩

theorem bmap_read {doalloc : Bool} (h : RepAt c own s a) (hv : s.vnode i = some sv)
    (hdo : doalloc = true → s.ptr i n ≠ 0) :
    wp (sfsBmap i n doalloc) (fun b s' => Reads c s s' ∧ n < sfsMaxblocks ∧ s.ptr i n = b)
      (fun e s' => Reads c s s' ∧ (e = .einval ∧ sfsMaxblocks ≤ n ∨ ¬ c ∧ e = .eio)) (fun _ => False) s := by
  have hi := h.owned.vnode_own hv
  unfold sfsBmap
  split
  · rename_i hn
    have hp := ptr_direct hv ⟨n, hn⟩
    have hno : ¬ (sv.svI.sfiDirect ⟨n, hn⟩ = 0 ∧ doalloc = true) := fun hc => hdo hc.2 (hp.trans hc.1)
    simp only [sfsBmapDirect, wp_bind, wp_getSv hv, if_neg hno, wp_pure]
    rw [wp_checkMapped h.owned hi (direct_lt ⟨n, hn⟩) hp]
    exact ⟨h.reads_refl, direct_lt ⟨n, hn⟩, hp⟩
  rename_i hn
  have hd : sfsDbperidb = 128 := rfl
  have hmax : sfsMaxblocks = sfsNdirect + 128 := rfl
  split
  · rename_i hlarge
    rw [hd] at hlarge
    exact ⟨h.reads_refl, Or.inl ⟨rfl, by omega⟩⟩
  · rename_i hsmall
    rw [hd] at hsmall
    have hmod : (n - sfsNdirect) % sfsDbperidb = n - sfsNdirect := Nat.mod_eq_of_lt (by omega)
    have hp := ptr_indirect hv (n - sfsNdirect)
    rw [Nat.add_sub_cancel' (Nat.le_of_not_lt hn)] at hp
    simp only [sfsBmapIndirect, wp_bind, wp_getSv hv, hmod]
    by_cases hz : sv.svI.sfiIndirect = 0
    · rw [if_pos hz] at hp
      have hdo' : doalloc = false := by
        by_contra hc
        exact hdo (by simpa using hc) hp
      rw [if_pos ⟨hz, hdo'⟩]
      exact ⟨h.reads_refl, by omega, hp⟩
    · have hid := h.owned.indirect_own hi (by rwa [vnode_inode hv])
      rw [vnode_inode hv] at hid
      rw [if_neg hz] at hp
      have hno : ¬ (readWords (s.disk sv.svI.sfiIndirect) (n - sfsNdirect) = 0 ∧ doalloc = true) := fun hc =>
        hdo hc.2 (hp.trans hc.1)
      simp only [hz, false_and, if_false, loadIndirect, wp_bind]
      refine h.rblock (h.owned.lt_nblocks (by rw [hid]; simp)) ?_ fun hc => ⟨h.reads_rest, Or.inr ⟨hc, rfl⟩⟩
      simp only [wp_pure, wp_bind, if_neg hno]
      rw [wp_checkMapped h.owned.rest hi (by omega) hp]
      exact ⟨h.reads_rest, by omega, hp⟩

/-! ### With allocation -/

theorem vnode_alloc : ((s.write b m).setMark b true).vnode i = s.vnode i := rfl

def AllocFails (c : Prop) (a : Vol) (e : Errno) (s : Sfs) : Prop := Rep c s a ∧ (e = .enospc ∨ ¬ c ∧ e = .eio)

theorem Rep.update {x : BlockOwner} (h : RepAt c (Function.update own b x) s a) (hx : x ≠ .taken)
    (ht : c → ∀ b, own b ≠ .taken) : Rep c s a := by
  refine ⟨_, h, fun hc j => ?_⟩
  rw [Function.update_apply]
  split
  · exact hx
  · exact ht hc j

theorem allocFails_of_balloc (h : RepAt c own s a) (ht : c → ∀ b, own b ≠ .taken) {e : Errno}
    (he : e = .enospc ∧ s' = s) : AllocFails c a e s' := by
  obtain ⟨rfl, rfl⟩ := he
  exact ⟨⟨own, h, ht⟩, Or.inl rfl⟩

section
variable (h : RepAt c own s a) (ht : c → ∀ b, own b ≠ .taken) (hv : s.vnode i = some sv)
include h ht hv

theorem ballocDirect_spec {k : Fin sfsNdirect} (hz : sv.svI.sfiDirect k = 0) :
    wp (ballocDirect i k) (fun b s' => Rep c s' a ∧ s'.ptr i k = b ∧ b ≠ 0) (AllocFails c a) (fun _ => False) s := by
  refine (balloc_spec h).bind (fun b s₁ => ?_) fun e s₁ he => allocFails_of_balloc h ht he
  rintro ⟨hb, rfl, halloc⟩
  obtain ⟨hrep, hptr⟩ := halloc.attachDirect (vnode_alloc.trans hv) (Function.update_self _ _ _) setMark_write_disk hz
  rw [Function.update_idem] at hrep
  exact ⟨Rep.update hrep (by simp) ht, hptr, h.owned.ne_zero (by rw [hb]; simp)⟩

theorem bmapDirect_write (k : Fin sfsNdirect) :
    wp (sfsBmapDirect i k true) (fun b s' => Rep c s' a ∧ s'.ptr i k = b ∧ b ≠ 0) (AllocFails c a)
    (fun _ => False) s := by
  have hi := h.owned.vnode_own hv
  unfold sfsBmapDirect
  simp only [wp_bind, wp_getSv hv, and_true]
  by_cases hz : sv.svI.sfiDirect k = 0
  · rw [if_pos hz]
    refine (ballocDirect_spec h ht hv hz).bind (fun b s' => ?_) fun _ _ he => he
    rintro ⟨⟨own', h', ht'⟩, hp, hb⟩
    have hi' : own' i = .inode := (h'.live i).mp ((h.live i).mpr hi)
    rw [wp_bind, wp_checkMapped h'.owned hi' (direct_lt k) hp]
    exact ⟨⟨own', h', ht'⟩, hp, hb⟩
  · rw [if_neg hz, wp_bind, wp_pure, wp_bind, wp_checkMapped h.owned hi (direct_lt k) (ptr_direct hv k)]
    exact ⟨⟨own, h, ht⟩, ptr_direct hv k, hz⟩

theorem loadIndirect_spec :
    wp (loadIndirect i sv.svI.sfiIndirect)
      (fun r s' => ∃ own' sv', RepAt c own' s' a ∧ (c → ∀ b, own' b ≠ .taken) ∧ s'.vnode i = some sv' ∧
        sv'.svI.sfiIndirect = r.1 ∧ r.1 ≠ 0 ∧ ∀ k, r.2 k = readWords (s'.disk r.1) k)
      (AllocFails c a) (fun _ => False) s := by
  have hi := h.owned.vnode_own hv
  unfold loadIndirect
  by_cases hz : sv.svI.sfiIndirect = 0
  · rw [if_pos hz]
    refine (balloc_spec h).bind (fun b s₁ => ?_) fun e s₁ he => allocFails_of_balloc h ht he
    rintro ⟨hb, rfl, halloc⟩
    have hv₁ : ((s.write b zeroBlock).setMark b true).vnode i = some sv := vnode_alloc.trans hv
    have hrep := halloc.attachIndirect hv₁ (Function.update_self _ _ _) setMark_write_disk hz
    rw [Function.update_idem] at hrep
    obtain ⟨own', h', ht'⟩ := Rep.update hrep (by simp) ht
    refine ⟨own', _, h', ht', vnode_modifySv (fun _ => rfl) hv₁, rfl, h.owned.ne_zero (by rw [hb]; simp), fun k => ?_⟩
    have hdisk : (((s.write b zeroBlock).setMark b true).modifySv i (SfsVnode.addIndirect b)).disk b = zeroBlock :=
      setMark_write_disk
    exact ((congrArg (readWords · k) hdisk).trans (readWords_zeroBlock k)).symm
  · have hid := h.owned.indirect_own hi (by rwa [vnode_inode hv])
    rw [vnode_inode hv] at hid
    rw [if_neg hz, wp_bind]
    refine h.rblock (h.owned.lt_nblocks (by rw [hid]; simp)) ?_ fun hc => ⟨⟨own, h.rest, ht⟩, Or.inr ⟨hc, rfl⟩⟩
    exact ⟨own, sv, h.rest, ht, hv, rfl, hz, fun _ => rfl⟩

theorem ballocEntry_spec (hid : sv.svI.sfiIndirect ≠ 0) {k : Nat} (hk : k < sfsDbperidb) {g : Nat → Nat}
    (hg : ∀ l, g l = readWords (s.disk sv.svI.sfiIndirect) l) (hz : g k = 0) :
    wp (ballocEntry sv.svI.sfiIndirect g k) (fun b s' => Rep c s' a ∧ s'.ptr i (sfsNdirect + k) = b ∧ b ≠ 0)
      (AllocFails c a) (fun _ => False) s := by
  have hi := h.owned.vnode_own hv
  have hown : own sv.svI.sfiIndirect = .indirect i := by
    have := h.owned.indirect_own hi (by rwa [vnode_inode hv])
    rwa [vnode_inode hv] at this
  refine (balloc_spec h).bind (fun b s₁ => ?_) fun e s₁ he => allocFails_of_balloc h ht he
  rintro ⟨hb, rfl, h₁⟩
  have hv₁ : ((s.write b zeroBlock).setMark b true).vnode i = some sv := vnode_alloc.trans hv
  have hne : sv.svI.sfiIndirect ≠ b := fun e => by
    rw [e, hb] at hown
    cases hown
  have hdisk : ((s.write b zeroBlock).setMark b true).disk sv.svI.sfiIndirect = s.disk sv.svI.sfiIndirect :=
    Function.update_of_ne hne _ _
  have hin : ((s.write b zeroBlock).setMark b true).inode i = sv.svI := vnode_inode hv₁
  have hz₁ : ((s.write b zeroBlock).setMark b true).ptr i (sfsNdirect + k) = 0 := by
    rw [ptr_indirect hv₁, if_neg hid, hdisk, ← hg]
    exact hz
  rw [wp_bind]
  refine (h₁.wblock (h.owned.lt_nblocks (by rw [hown]; simp))).mpr ?_
  have hat := h₁.attachEntry (g := Function.update g k b) (h₁.owned.vnode_own hv₁) (by rwa [hin])
    (Function.update_self _ _ _) setMark_write_disk hk hz₁ fun l _ => by
      rw [hin, hdisk, Function.update_apply, hg]
  rw [Function.update_idem, hin] at hat
  exact ⟨Rep.update hat.1 (by simp) ht, hat.2, h.owned.ne_zero (by rw [hb]; simp)⟩

theorem bmapIndirect_write {k : Nat} (hk : k < sfsDbperidb) :
    wp (sfsBmapIndirect i k true) (fun b s' => Rep c s' a ∧ s'.ptr i (sfsNdirect + k) = b ∧ b ≠ 0) (AllocFails c a)
      (fun _ => False) s := by
  have hi := h.owned.vnode_own hv
  have hmod : k % sfsDbperidb = k := Nat.mod_eq_of_lt hk
  have hn : sfsNdirect + k < sfsMaxblocks := Nat.add_lt_add_left hk _
  unfold sfsBmapIndirect
  simp only [wp_bind, wp_getSv hv, Bool.true_eq_false, and_false, if_false, hmod]
  refine (loadIndirect_spec h ht hv).imp fun r s₁ => ?_
  rintro ⟨own₁, sv₁, h₁, ht₁, hv₁, hid, hr, hg⟩
  obtain ⟨idblock, idbuf⟩ := r
  simp only at hid hr hg ⊢
  subst hid
  have hi₁ : own₁ i = .inode := (h₁.live i).mp ((h.live i).mpr hi)
  by_cases hz : idbuf k = 0
  · simp only [hz, and_self, if_true]
    refine (ballocEntry_spec h₁ ht₁ hv₁ hr hk hg hz).bind (fun b s₂ => ?_) fun _ _ he => he
    rintro ⟨⟨own₂, h₂, ht₂⟩, hp, hb⟩
    rw [wp_bind, wp_checkMapped h₂.owned ((h₂.live i).mp ((h.live i).mpr hi)) hn hp]
    exact ⟨⟨own₂, h₂, ht₂⟩, hp, hb⟩
  · have hp : s₁.ptr i (sfsNdirect + k) = idbuf k := by
      rw [ptr_indirect hv₁, if_neg hr, hg]
    simp only [hz, false_and, if_false, wp_bind, wp_pure]
    rw [wp_checkMapped h₁.owned hi₁ hn hp]
    exact ⟨⟨own₁, h₁, ht₁⟩, hp, hz⟩

theorem bmap_write :
    wp (sfsBmap i n true) (fun b s' => Rep c s' a ∧ n < sfsMaxblocks ∧ s'.ptr i n = b ∧ b ≠ 0)
      (fun e s' => Rep c s' a ∧ (e = .enospc ∧ s.ptr i n = 0 ∨ e = .einval ∧ sfsMaxblocks ≤ n ∨ ¬ c ∧ e = .eio))
      (fun _ => False) s := by
  by_cases hz : s.ptr i n ≠ 0
  · refine (bmap_read h hv fun _ => hz).mono (fun b s' => ?_) (fun e s' => ?_) fun _ hk => hk
    · rintro ⟨hr, hn, rfl⟩
      exact ⟨⟨own, h.reads hr, ht⟩, hn, hr.ptr, hz⟩
    · rintro ⟨hr, he⟩
      exact ⟨⟨own, h.reads hr, ht⟩, Or.inr he⟩
  rw [not_not] at hz
  have herr : ∀ {e s'}, AllocFails c a e s' →
      Rep c s' a ∧ (e = .enospc ∧ s.ptr i n = 0 ∨ e = .einval ∧ sfsMaxblocks ≤ n ∨ ¬ c ∧ e = .eio) := fun he =>
    ⟨he.1, he.2.imp (fun h => ⟨h, hz⟩) Or.inr⟩
  unfold sfsBmap
  split
  · rename_i hn
    exact (bmapDirect_write h ht hv ⟨n, hn⟩).mono (fun _ _ hq => ⟨hq.1, direct_lt ⟨n, hn⟩, hq.2⟩)
      (fun _ _ he => herr he) fun _ hk => hk
  rename_i hn
  have hd : sfsDbperidb = 128 := rfl
  have hmax : sfsMaxblocks = sfsNdirect + 128 := rfl
  split
  · rename_i hlarge
    rw [hd] at hlarge
    exact ⟨⟨own, h, ht⟩, Or.inr (Or.inl ⟨rfl, by omega⟩)⟩
  · rename_i hsmall
    rw [hd] at hsmall
    have hback : sfsNdirect + (n - sfsNdirect) = n := Nat.add_sub_cancel' (Nat.le_of_not_lt hn)
    have hspec := bmapIndirect_write h ht hv (show n - sfsNdirect < sfsDbperidb by omega)
    rw [hback] at hspec
    exact hspec.mono (fun _ _ hq => ⟨hq.1, by omega, hq.2⟩) (fun _ _ he => herr he) fun _ hk => hk

end

end

end Os161
