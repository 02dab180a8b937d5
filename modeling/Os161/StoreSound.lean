import Os161.IoSound
import Os161.TruncSound

/-!
# Writing a file

A write goes block by block like a read. Whatever it ends with, the volume
stands for the file with the bytes that have been stored.
-/

namespace Os161

open Bytes Proc

variable {c : Prop} {own : Nat → BlockOwner} {s s' : Sfs} {a : Vol} {b i n m k len : Nat} {sv : SfsVnode} {x : Xfer}
  {r : Option Errno × Xfer} {e : Errno} {block : Mem}

/-! ## Files in memory -/

theorem RepAt.counts (h : RepAt c own s a) (i : Nat) : a.counts i = (s.vnode i).map SfsVnode.svV := by
  unfold Vol.counts Sfs.vnode
  have hget := @Table.get_map _ SfsVnode.svIno s.sfsVnodes i _ Prod.fst (fun sv => (sv.svIno, sv.svV)) fun _ => rfl
  rw [← h.table, Sfs.table, hget, Option.map_map]
  rfl

theorem RepAt.vnode (h : RepAt c own s a) (hl : a.Loaded i) : ∃ sv, s.vnode i = some sv := by
  obtain ⟨v, hv⟩ := hl
  rw [h.counts] at hv
  obtain ⟨sv, hsv, -⟩ := Option.map_eq_some_iff.mp hv
  exact ⟨sv, hsv⟩

theorem Rep.vnode (h : Rep c s a) (hl : a.Loaded i) : ∃ sv, s.vnode i = some sv := by
  obtain ⟨own, h, -⟩ := h
  exact h.vnode hl

theorem RepAt.loaded (h : RepAt c own s a) (hv : s.vnode i = some sv) : a.Loaded i := by
  refine ⟨sv.svV, ?_⟩
  rw [h.counts, hv]
  rfl

theorem RepAt.live_of_loaded (h : RepAt c own s a) (hl : a.Loaded i) : a.live i := by
  obtain ⟨sv, hv⟩ := h.vnode hl
  exact (h.live i).mpr (h.owned.vnode_own hv)

theorem RepAt.modifyInode {f : SfsVnode → SfsVnode} (h : RepAt c own s a) (hv : s.vnode i = some sv)
    (hf : ∀ x, (f x).svIno = x.svIno ∧ (f x).svV = x.svV) (hd : (f sv).svI.sfiDirect = sv.svI.sfiDirect)
    (hid : (f sv).svI.sfiIndirect = sv.svI.sfiIndirect) (hsize : (f sv).svI.sfiSize < 2 ^ 32)
    (htype : (f sv).svI.sfiType = sv.svI.sfiType) (hlink : (f sv).svI.sfiLinkcount < 2 ^ 16)
    (hclean : (f sv).svDirty = false → readInode (s.disk i) = (f sv).svI) :
    RepAt c own (s.modifySv i f)
      (a.setView i { a.view i with size := (f sv).svI.sfiSize, linkcount := (f sv).svI.sfiLinkcount }) := by
  have hi := h.owned.vnode_own hv
  obtain ⟨hown, hptr⟩ := h.owned.modifySv (fun x => (hf x).1) hv hd hid hsize htype hlink hclean
  have hbyte : ∀ j, (s.modifySv i f).byte j = s.byte j := fun j => byte_congr (fun n _ => hptr j n) fun _ _ _ => rfl
  refine ⟨hown, h.live, fun j hj => ?_, (table_modifySv hf).trans h.table, h.calm⟩
  have hview := h.view j hj
  by_cases hji : j = i
  · subst hji
    have hin : (s.modifySv j f).inode j = (f sv).svI := inode_modifySv (fun x => (hf x).1) hv
    simp only [Vol.setView, Function.update_self]
    rw [← hview]
    simp only [Sfs.view, hin, hbyte, htype, vnode_inode hv]
  · simp only [Vol.setView, Function.update_of_ne hji]
    rw [← hview]
    exact view_congr (inode_modifySv_of_ne (fun x => (hf x).1) hji) (hbyte j)

theorem RepAt.setSize {size : Nat} (h : RepAt c own s a) (hv : s.vnode i = some sv) (hs : size < 2 ^ 32) :
    RepAt c own (s.modifySv i (SfsVnode.setSize size)) (a.setSize i size) := by
  have hi := h.owned.vnode_own hv
  have hfits := h.owned.inodeFits hi
  rw [vnode_inode hv] at hfits
  have hrep := h.modifyInode (f := SfsVnode.setSize size) hv (fun _ => ⟨rfl, rfl⟩) rfl rfl hs rfl hfits.linkcount
    (fun e => by cases e)
  have hlink : (a.view i).linkcount = sv.svI.sfiLinkcount := by
    rw [← h.view i ((h.live i).mpr hi), ← vnode_inode hv]
    rfl
  rw [show (SfsVnode.setSize size sv).svI.sfiLinkcount = (a.view i).linkcount from hlink.symm] at hrep
  exact hrep

/-! ## Storing bytes -/

theorem RepAt.writeData (h : RepAt c own s a) (hb : own b = .data i n) : RepAt c own (s.write b block)
    (a.setBytes i fun o => if o / sfsBlocksize = n then block (o % sfsBlocksize) else (a.view i).bytes o) := by
  obtain ⟨hi, hn, hp, hb0⟩ := (h.owned.data b i n).mp hb
  have hin : ∀ j, own j = .inode → (s.write b block).inode j = s.inode j := fun j hj =>
    inode_write (Or.inl fun e => by rw [e, hj] at hb; cases hb)
  have hptr : ∀ j k, own j = .inode → (s.write b block).ptr j k = s.ptr j k := fun j k hj =>
    h.owned.ptr_write hj (hin j hj) (by rw [hb]; simp)
  -- another block of a file is not `b`
  have hdisk : ∀ j k, own j = .inode → k < sfsMaxblocks → s.ptr j k ≠ 0 → (j, k) ≠ (i, n) →
      (s.write b block).disk (s.ptr j k) = s.disk (s.ptr j k) := by
    intro j k hj hk h0 hne
    refine Function.update_of_ne (fun e => ?_) _ _
    have hown := h.owned.ptr_own hj hk h0
    rw [e, hb] at hown
    injection hown with e₁ e₂
    exact hne (by rw [e₁, e₂])
  refine { h with owned := h.owned.write (by rw [hb]; simp) (by rw [hb]; simp) (by rw [hb]; simp), view := ?_ }
  intro j hj
  have hown := (h.live j).mp hj
  have hview := h.view j hj
  by_cases hji : j = i
  · subst hji
    have hbytes : (a.view j).bytes = s.byte j := by rw [← hview]; rfl
    simp only [Vol.setBytes, Vol.setView, Function.update_self, hbytes]
    rw [← hview]
    simp only [Sfs.view, hin j hown, FileView.mk.injEq, true_and]
    funext o
    unfold Sfs.byte
    rw [hptr j _ hown]
    by_cases ho : o / sfsBlocksize = n
    · have hlt : o < sfsMaxblocks * sfsBlocksize := by
        unfold sfsBlocksize at *
        omega
      rw [if_pos ho, ho, hp, if_pos ⟨hlt, hb0⟩]
      show Function.update s.disk b block b _ = _
      rw [Function.update_self]
    · rw [if_neg ho]
      split
      · rename_i hc
        have hlt : o / sfsBlocksize < sfsMaxblocks := Nat.div_lt_of_lt_mul (by rw [Nat.mul_comm]; exact hc.1)
        rw [hdisk j _ hown hlt hc.2 fun e => ho (congrArg Prod.snd e)]
      · rfl
  · simp only [Vol.setBytes, Vol.setView, Function.update_of_ne hji]
    rw [← hview]
    refine view_congr (hin j hown) (byte_congr (fun k _ => hptr j k hown) fun k hk h0 => ?_)
    exact hdisk j k hown hk h0 fun e => hji (congrArg Prod.fst e)

def Xfer.adv (x : Xfer) (n : Nat) : Xfer := { x with uio := x.uio.skip n }

def Vol.put (a : Vol) (i : Nat) (x : Xfer) (n : Nat) : Vol :=
  a.setBytes i (copyBytes (a.view i).bytes x.uio.pos x.buf x.uio.iovKbase n)

theorem Xfer.adv_zero (x : Xfer) : x.adv 0 = x := by rw [Xfer.adv, Uio.skip_zero]

theorem Xfer.adv_adv (x : Xfer) (n m : Nat) : (x.adv n).adv m = x.adv (n + m) := by simp only [Xfer.adv, Uio.skip_skip]

theorem Vol.put_zero (a : Vol) (i : Nat) (x : Xfer) : a.put i x 0 = a := by
  unfold Vol.put Vol.setBytes Vol.setView
  rw [copyBytes_zero, Function.update_eq_self]

theorem Vol.put_adv (a : Vol) (hx : x.uio.Fits) : (a.put i x n).put i (x.adv n) m = a.put i x (n + m) := by
  have hpos : (x.adv n).uio.pos = x.uio.pos + n := hx.pos_skip n
  have hbase : (x.adv n).uio.iovKbase = x.uio.iovKbase + n := rfl
  have hbuf : (x.adv n).buf = x.buf := rfl
  unfold Vol.put Vol.setBytes Vol.setView
  rw [hpos, hbase, hbuf]
  simp only [Function.update_self, Function.update_idem, copyBytes_adjacent]

/-- A write of `total` bytes: all of them are stored, or the first `k`. -/
inductive Stored (c : Prop) (vol : Nat → Vol) (x : Xfer) (total : Nat) : Option Errno × Xfer → Sfs → Prop
  | all {t : Sfs} (h : Rep c t (vol total)) (hle : total = 0 ∨ x.uio.pos + total ≤ sfsMaxbytes) :
    Stored c vol x total (none, x.adv total) t
  | upTo {t : Sfs} {err : Errno} (k : Nat) (h : Rep c t (vol k)) (hk : k ≤ total)
    (he : err = .enospc ∨ err = .einval ∧ sfsMaxbytes ≤ x.uio.pos + k ∨ ¬ c ∧ err = .eio) :
    Stored c vol x total (some err, x.adv k) t

def Vol.Hole (a : Vol) (i n : Nat) : Prop := ∀ o, o / sfsBlocksize = n → (a.view i).bytes o = 0

theorem RepAt.hole (h : RepAt c own s a) (hl : a.Loaded i) (hz : s.ptr i n = 0) : a.Hole i n := by
  intro o ho
  rw [← h.view i (h.live_of_loaded hl)]
  show s.byte i o = 0
  unfold Sfs.byte
  rw [ho, hz]
  exact if_neg fun hc => hc.2 rfl

inductive StoredPiece (c z : Prop) (vol : Nat → Vol) (x : Xfer) (len : Nat) : Option Errno × Xfer → Sfs → Prop
  | all {t : Sfs} (h : Rep c t (vol len)) (hle : x.uio.pos + len ≤ sfsMaxbytes) :
    StoredPiece c z vol x len (none, x.adv len) t
  | nothing {t : Sfs} {err : Errno} (h : Rep c t (vol 0))
    (he : err = .enospc ∧ z ∨ err = .einval ∧ sfsMaxbytes ≤ x.uio.pos ∨ ¬ c ∧ err = .eio) :
    StoredPiece c z vol x len (some err, x.adv 0) t

theorem StoredPiece.stored {z : Prop} {vol : Nat → Vol} (h : StoredPiece c z vol x len r s) :
    Stored c vol x len r s := by
  cases h with
  | all h hle => exact .all h (Or.inr hle)
  | nothing h he => exact .upTo 0 h (Nat.zero_le _) (he.imp_left And.left)

theorem StoredPiece.none_of_rep {z : Prop} (h : Rep c s a)
    (he : e = .enospc ∧ z ∨ e = .einval ∧ sfsMaxblocks ≤ x.uio.pos / sfsBlocksize ∨ ¬ c ∧ e = .eio) :
    StoredPiece c z (a.put i x) x len (some e, x) s := by
  have hle : e = .enospc ∧ z ∨ e = .einval ∧ sfsMaxbytes ≤ x.uio.pos ∨ ¬ c ∧ e = .eio :=
    he.imp_right fun h => h.imp_left fun h => ⟨h.1, (Nat.le_div_iff_mul_le (by decide)).mp h.2⟩
  have hrep : Rep c s (a.put i x 0) := by rwa [Vol.put_zero]
  have hpiece : StoredPiece c z (a.put i x) x len (some e, x.adv 0) s := .nothing hrep hle
  rwa [Xfer.adv_zero] at hpiece

theorem Stored.trans (hx : x.uio.Fits) (hn : x.uio.pos + n ≤ sfsMaxbytes)
    (h : Stored c ((a.put i x n).put i (x.adv n)) (x.adv n) m r s) :
    Stored c (a.put i x) x (n + m) r s := by
  have hpos : (x.adv n).uio.pos = x.uio.pos + n := hx.pos_skip n
  cases h with
  | all h hle =>
    rw [Vol.put_adv a hx] at h
    rw [Xfer.adv_adv]
    exact .all h (by omega)
  | upTo k h hk he =>
    rw [Vol.put_adv a hx] at h
    rw [hpos, Nat.add_assoc] at he
    rw [Xfer.adv_adv]
    exact .upTo (n + k) h (by omega) he

theorem RepAt.writePiece (h : RepAt c own s a) (hb : own b = .data i (x.uio.pos / sfsBlocksize))
    (hlen : x.uio.pos % sfsBlocksize + len ≤ sfsBlocksize)
    (hm : ∀ k < 512, block k = if x.uio.pos % sfsBlocksize ≤ k ∧ k < x.uio.pos % sfsBlocksize + len then
      x.buf (x.uio.iovKbase + (k - x.uio.pos % sfsBlocksize))
      else (a.view i).bytes (x.uio.pos / sfsBlocksize * 512 + k)) : RepAt c own (s.write b block) (a.put i x len) := by
  have hrep := @RepAt.writeData c own s a b i _ block h hb
  generalize hn : x.uio.pos / sfsBlocksize = n at hb hm hrep
  convert hrep using 1
  unfold Vol.put
  congr 1
  funext o
  unfold copyBytes sfsBlocksize at *
  by_cases ho : o / 512 = n
  · rw [if_pos ho, hm _ (Nat.mod_lt _ (by decide))]
    by_cases hin : x.uio.pos % 512 ≤ o % 512 ∧ o % 512 < x.uio.pos % 512 + len
    · rw [if_pos hin, if_pos (by omega)]
      congr 2
      omega
    · rw [if_neg hin, if_neg (by omega)]
      congr 1
      omega
  · rw [if_neg ho, if_neg (by omega)]

theorem blockioDevice_write (h : RepAt c own s a) (hx : x.uio.Fits) (hrw : x.uio.uioRw = .write) (hb : b < s.nblocks)
    (hres : sfsBlocksize ≤ x.uio.uioResid) :
    wp (blockioDevice x b)
      (fun r s' => r = (none, x.adv sfsBlocksize) ∧
        s' = s.write b (copyBytes zeroBlock 0 x.buf x.uio.iovKbase sfsBlocksize))
      (fun _ _ => False) (fun _ => False) s := by
  obtain ⟨buf, kbase, ilen, off, resid, rw'⟩ := x
  obtain rfl : rw' = .write := hrw
  have hlt := hx.resid
  have hroom : (⟨kbase, ilen, b * sfsBlocksize, sfsBlocksize, .write⟩ : Uio).Room :=
    ⟨Nat.le_trans hres hx.len, show sfsBlocksize < 2 ^ 32 by decide⟩
  have hmove := @uiomove_out zeroBlock buf _ _ hroom rfl (Nat.le_refl sfsBlocksize)
  unfold blockioDevice
  simp only [wp_bind, wp_assertFs hres, wp_attempt, rwblock]
  rw [hmove]
  simp only [liftUio, wp_pure, wp_bind]
  refine (h.wblock hb).mpr ⟨?_, rfl⟩
  have hoff : (b : Int) * sfsBlocksize + sfsBlocksize - b * sfsBlocksize + off = off + sfsBlocksize := by omega
  simp only [Xfer.adv, Uio.skip, Nat.sub_self, Nat.zero_add, hoff, u32_of_lt (Nat.lt_of_le_of_lt (Nat.sub_le _ _) hlt)]

section
variable (h : Rep c s a) (hl : a.Loaded i) (hx : x.uio.Fits) (hrw : x.uio.uioRw = .write)
include h hl hx hrw

theorem partialio_write (hlen : x.uio.pos % sfsBlocksize + len ≤ sfsBlocksize) (hres : len ≤ x.uio.uioResid) :
    wp (sfsPartialio i x (x.uio.pos % sfsBlocksize) len)
      (StoredPiece c (a.Hole i (x.uio.pos / sfsBlocksize)) (a.put i x) x len) (fun _ _ => False)
      (fun _ => False) s := by
  have hrw' : (x.uio.uioRw == .write) = true := by rw [hrw]; rfl
  obtain ⟨own, h, ht⟩ := h
  obtain ⟨sv, hv⟩ := h.vnode hl
  unfold sfsPartialio
  rw [wp_bind, wp_assertFs hlen, wp_bind, wp_attempt, hrw']
  refine (bmap_write h ht hv).mono (fun b s₁ => ?_) (fun e s₁ => ?_) fun _ hk => hk
  · rintro ⟨⟨own₁, h₁, ht₁⟩, hn, hp, hb⟩
    have hlive := h₁.live_of_loaded hl
    have hown := h₁.owned.ptr_own ((h₁.live i).mp hlive) hn (by rwa [hp])
    rw [hp] at hown
    have hdev := h₁.owned.lt_nblocks (b := b) (by rw [hown]; simp)
    have hold : ∀ k < 512, s₁.disk b k = (a.view i).bytes (x.uio.pos / sfsBlocksize * 512 + k) := by
      intro k hk
      have hbyte := byte_blockOf (s := s₁) (i := i) hn hk
      rw [hp, Sfs.blockOf, if_neg hb] at hbyte
      rw [← hbyte, ← h₁.view i hlive]
      rfl
    simp only [wp_bind, wp_attempt, loadBlock, if_neg hb]
    refine h₁.rblock hdev ?_ fun hc => .none_of_rep ⟨own₁, h₁.rest, ht₁⟩ (Or.inr (Or.inr ⟨hc, rfl⟩))
    rw [uiomove_out hx.toRoom hrw hres]
    simp only [liftUio, wp_pure, wp_bind, wp_attempt, storeBlock, hrw]
    have hadv : x.adv len = ⟨x.buf, x.uio.skip len⟩ := rfl
    rw [← hadv]
    refine (h₁.rest.wblock hdev).mpr ?_
    refine .all ⟨own₁, h₁.rest.writePiece hown hlen fun k hk => ?_, ht₁⟩ (piece_le hn hlen)
    rw [← hold k hk]
    show splice (s₁.disk b) (x.uio.pos % sfsBlocksize) _ k = _
    unfold splice copyBytes
    by_cases hlt : k < x.uio.pos % sfsBlocksize
    · rw [if_pos hlt, if_neg fun hc => absurd hc.1 (Nat.not_le.mpr hlt)]
    · rw [if_neg hlt]
      simp only [Nat.zero_le, true_and, Nat.zero_add, Nat.sub_zero, Nat.add_sub_cancel' (Nat.le_of_not_lt hlt)]
      congr 1
      exact propext (by omega)
  · rintro ⟨hrep, he⟩
    exact .none_of_rep hrep (he.imp_left fun h' => ⟨h'.1, h.hole hl h'.2⟩)

theorem blockio_write (halign : x.uio.pos % sfsBlocksize = 0) (hres : sfsBlocksize ≤ x.uio.uioResid) :
    wp (sfsBlockio i x) (StoredPiece c (a.Hole i (x.uio.pos / sfsBlocksize)) (a.put i x) x sfsBlocksize)
      (fun _ _ => False) (fun _ => False) s := by
  have hrw' : (x.uio.uioRw == .write) = true := by rw [hrw]; rfl
  obtain ⟨own, h, ht⟩ := h
  obtain ⟨sv, hv⟩ := h.vnode hl
  unfold sfsBlockio
  rw [wp_bind, wp_attempt, hrw']
  refine (bmap_write h ht hv).mono (fun b s₁ => ?_) (fun e s₁ => ?_) fun _ hk => hk
  · rintro ⟨⟨own₁, h₁, ht₁⟩, hn, hp, hb⟩
    have hlive := h₁.live_of_loaded hl
    have hown := h₁.owned.ptr_own ((h₁.live i).mp hlive) hn (by rwa [hp])
    rw [hp] at hown
    simp only [if_neg hb]
    refine (blockioDevice_write h₁ hx hrw (h₁.owned.lt_nblocks (by rw [hown]; simp)) hres).imp fun r s₂ => ?_
    rintro ⟨rfl, rfl⟩
    have hfit : x.uio.pos % sfsBlocksize + sfsBlocksize ≤ sfsBlocksize := by rw [halign, Nat.zero_add]
    refine .all ⟨own₁, h₁.writePiece hown hfit fun k hk => ?_, ht₁⟩ (piece_le hn hfit)
    have hlt : 0 ≤ k ∧ k < 0 + sfsBlocksize := ⟨Nat.zero_le _, by rw [Nat.zero_add]; exact hk⟩
    rw [halign, copyBytes, if_pos hlt, if_pos hlt]
  · rintro ⟨hrep, he⟩
    exact .none_of_rep hrep (he.imp_left fun h' => ⟨h'.1, h.hole hl h'.2⟩)

end

theorem write_inPieces : InPieces i Prod.snd (fun t n => (t.1.put i t.2 n, t.2.adv n))
    (fun t s => Rep c s t.1 ∧ t.1.Loaded i ∧ t.2.uio.Fits ∧ t.2.uio.uioRw = .write)
    fun t n => Stored c (t.1.put i t.2) t.2 n where
  fits ht := ht.2.2.1
  skip _ _ := rfl
  nothing := by
    rintro ⟨a, x⟩ s ⟨h, -⟩
    have hrep : Rep c s (a.put i x 0) := by rwa [Vol.put_zero]
    have hstored : Stored c (a.put i x) x 0 (none, x.adv 0) s := .all hrep (Or.inl rfl)
    rwa [Xfer.adv_zero] at hstored
  next := by
    rintro ⟨a, x⟩ s n r s' ⟨-, hl, hx, hrw⟩ hr
    cases hr with
    | all h hle =>
      refine Or.inl ⟨rfl, ⟨h, hl, hx.skip n, hrw⟩, fun m r' s'' h' => ?_⟩
      rcases hle with rfl | hle
      · simp only [Xfer.adv_zero, Vol.put_zero] at h'
        rwa [Nat.zero_add]
      · exact h'.trans hx hle
    | upTo k h hk he => exact Or.inr ⟨⟨_, rfl⟩, fun m => .upTo k h (Nat.le_trans hk (Nat.le_add_right _ _)) he⟩
  piece := by
    rintro ⟨a, x⟩ s len ⟨h, hl, hx, hrw⟩ hfit hres -
    exact (partialio_write h hl hx hrw hfit hres).imp fun _ _ hq => hq.stored
  block := by
    rintro ⟨a, x⟩ s ⟨h, hl, hx, hrw⟩ halign hres
    exact (blockio_write h hl hx hrw halign hres).imp fun _ _ hq => hq.stored

theorem ioBody_write (h : Rep c s a) (hl : a.Loaded i) (hx : x.uio.Fits) (hrw : x.uio.uioRw = .write) :
    wp (sfsIoBody i x) (Stored c (a.put i x) x x.uio.uioResid) (fun _ _ => False) (fun _ => False) s :=
  write_inPieces.ioBody (t := (a, x)) ⟨h, hl, hx, hrw⟩ (Or.inr hrw)

/-! ## The end of the file -/

def Vol.grow (a : Vol) (i off : Nat) : Vol := if toOff (a.view i).size < off then a.setSize i (u32 off) else a

def Vol.write (a : Vol) (i : Nat) (x : Xfer) (k : Nat) : Vol := (a.put i x k).grow i (x.uio.pos + k)

theorem Rep.grow {off : Nat} (h : Rep c s a) (hl : a.Loaded i) :
    wp (do
      let sv ← getSv i
      if toOff sv.svI.sfiSize < off then
        modifySv i fun sv => { sv with svI := { sv.svI with sfiSize := u32 off }, svDirty := true }
      pure r)
      (fun r' s' => r' = r ∧ Rep c s' (a.grow i off)) (fun _ _ => False) (fun _ => False) s := by
  obtain ⟨own, h, ht⟩ := h
  obtain ⟨sv, hv⟩ := h.vnode hl
  have hsize : (a.view i).size = sv.svI.sfiSize := by
    rw [← h.view i (h.live_of_loaded hl), ← vnode_inode hv]
    rfl
  rw [wp_bind, wp_getSv hv]
  unfold Vol.grow
  rw [hsize]
  split
  · exact ⟨rfl, own, h.setSize hv (Nat.mod_lt _ (by decide)), ht⟩
  · exact ⟨rfl, own, h, ht⟩

section
variable (hl : a.Loaded i) (hx : x.uio.Fits)
include hl hx

theorem sfsIoWrite_last {err : Option Errno} (h : Rep c s (a.put i x k)) :
    wp (do
      let sv ← getSv i
      if toOff sv.svI.sfiSize < (x.adv k).uio.uioOffset then
        modifySv i fun sv =>
          { sv with svI := { sv.svI with sfiSize := u32 (x.adv k).uio.uioOffset.toNat }, svDirty := true }
      pure (err, x.adv k))
      (fun r s' => r = (err, x.adv k) ∧ Rep c s' (a.write i x k)) (fun _ _ => False) (fun _ => False) s := by
  have hoff : (x.adv k).uio.uioOffset = ((x.uio.pos + k : Nat) : Int) := by
    have := hx.offset
    simp only [Xfer.adv, Uio.skip, Uio.pos]
    omega
  rw [hoff, Int.toNat_natCast]
  exact h.grow hl

variable (h : Rep c s a) (hrw : x.uio.uioRw = .write)
include h hrw

theorem sfsIo_write :
    wp (sfsIo i x) (Stored c (a.write i x) x x.uio.uioResid) (fun _ _ => False) (fun _ => False) s := by
  obtain ⟨sv, hv⟩ := h.vnode hl
  unfold sfsIo
  rw [wp_bind, wp_getSv hv, hrw]
  dsimp only
  unfold sfsIoWrite
  refine (ioBody_write h hl hx hrw).bind (fun r s₁ hr => ?_) fun _ _ hf => hf
  cases hr with
  | all h₁ hle =>
    refine (sfsIoWrite_last hl hx h₁).imp fun r s₂ hq => ?_
    obtain ⟨rfl, hq⟩ := hq
    exact .all hq hle
  | upTo k h₁ hk he =>
    refine (sfsIoWrite_last hl hx h₁).imp fun r s₂ hq => ?_
    obtain ⟨rfl, hq⟩ := hq
    exact .upTo k hq hk he

theorem sfsIo_write_piece (hfit : x.uio.pos % sfsBlocksize + x.uio.uioResid ≤ sfsBlocksize) (hpos : 0 < x.uio.uioResid)
    (hlt : x.uio.uioResid < sfsBlocksize) :
    wp (sfsIo i x) (StoredPiece c (a.Hole i (x.uio.pos / sfsBlocksize)) (a.write i x) x x.uio.uioResid)
      (fun _ _ => False) (fun _ => False) s := by
  generalize hz : a.Hole i (x.uio.pos / sfsBlocksize) = z
  obtain ⟨sv, hv⟩ := h.vnode hl
  have hdone : ∀ (r : Option Errno × Xfer) s₁, StoredPiece c z (a.put i x) x x.uio.uioResid r s₁ → wp (do
      let sv ← getSv i
      if toOff sv.svI.sfiSize < r.2.uio.uioOffset then
        modifySv i fun sv => { sv with svI := { sv.svI with sfiSize := u32 r.2.uio.uioOffset.toNat }, svDirty := true }
      pure (r.1, r.2)) (StoredPiece c z (a.write i x) x x.uio.uioResid) (fun _ _ => False) (fun _ => False) s₁ := by
    intro r s₁ hr
    cases hr with
    | all h₁ hle =>
      refine (sfsIoWrite_last hl hx h₁).imp fun r s₂ hq => ?_
      obtain ⟨rfl, hq⟩ := hq
      exact .all hq hle
    | nothing h₁ he =>
      refine (sfsIoWrite_last hl hx h₁).imp fun r s₂ hq => ?_
      obtain ⟨rfl, hq⟩ := hq
      exact .nothing hq he
  unfold sfsIo
  rw [wp_bind, wp_getSv hv, hrw]
  dsimp only
  unfold sfsIoWrite
  refine wp.bind ?_ (fun r s₁ hr => hdone r s₁ hr) fun _ _ hf => hf
  have hpart := partialio_write h hl hx hrw hfit (Nat.le_refl _)
  rw [hz] at hpart
  rw [sfsIoBody_eq]
  unfold sfsIoLeading
  by_cases hoff : x.uio.pos % sfsBlocksize = 0
  · -- no leading part and no whole block
    rw [hoff] at hpart
    rw [if_neg (not_not_intro (show x.uio.uioOffset.toNat % sfsBlocksize = 0 from hoff)), wp_bind, wp_pure]
    dsimp only
    rw [if_neg (Nat.pos_iff_ne_zero.mp hpos)]
    unfold sfsIoAligned
    rw [wp_bind, wp_assertFs (show x.uio.uioOffset.toNat % sfsBlocksize = 0 from hoff), Nat.div_eq_of_lt hlt, wp_bind]
    unfold blockLoop
    rw [wp_pure]
    dsimp only
    rw [wp_bind, wp_assertFs hlt, if_pos hpos]
    exact hpart
  · rw [if_pos (show x.uio.uioOffset.toNat % sfsBlocksize ≠ 0 from hoff),
      show min (sfsBlocksize - x.uio.uioOffset.toNat % sfsBlocksize) x.uio.uioResid = x.uio.uioResid from
        Nat.min_eq_right (Nat.le_sub_of_add_le (by rwa [Nat.add_comm] at hfit))]
    refine hpart.bind (fun r s₁ hr => ?_) fun _ _ hf => hf
    cases hr with
    | all h₁ hle =>
      dsimp only
      rw [if_pos (show (x.adv x.uio.uioResid).uio.uioResid = 0 from Nat.sub_self _)]
      exact .all h₁ hle
    | nothing h₁ he => exact .nothing h₁ he

end

/-! ## Other files -/

def Others (d : Nat) (s s' : Sfs) : Prop := ∀ j, j ≠ d → s'.vnode j = s.vnode j

section
variable {d b : Nat}

theorem Others.refl (s : Sfs) : Others d s s := fun _ _ => rfl

theorem Others.trans (s s' s'' : Sfs) (h : Others d s s') (h' : Others d s' s'') : Others d s s'' :=
  fun j hj => (h' j hj).trans (h j hj)

theorem others_modify {f : Sfs → Sfs} (hf : ∀ s, (f s).sfsVnodes = s.sfsVnodes) :
    Keeps (Others d) (Proc.modify f : SfsM Unit) := by
  intro s j _
  unfold Sfs.vnode
  rw [hf]

theorem others_modifySv {f : SfsVnode → SfsVnode} (hf : ∀ x, (f x).svIno = x.svIno) : Keeps (Others d) (modifySv d f) :=
  fun _ _ hj => vnode_modifySv_of_ne hf hj

theorem others_getSv {i : Nat} : Keeps (Others d) (getSv i) := by
  unfold getSv
  refine .bind .trans (.get .refl) fun s => ?_
  cases s.vnode i with
  | none => exact .crash _
  | some sv => exact .pure .refl sv

theorem others_rblock : Keeps (Others d) (sfsRblock b) := keeps_rblock fun s => Others.refl s

theorem others_wblock {m : Mem} : Keeps (Others d) (sfsWblock m b) :=
  keeps_wblock (fun s _ => Others.refl s) fun s _ => Others.refl s

theorem others_balloc : Keeps (Others d) sfsBalloc := by
  unfold sfsBalloc
  refine .bind .trans (.get .refl) fun s => ?_
  split
  · exact .throw .refl _
  · refine .bind .trans (others_modify fun _ => rfl) fun _ => ?_
    have hclear : ∀ b, Keeps (Others d) (do
        sfsClearblock b
        pure b) := fun b => .bind .trans others_wblock fun _ => .pure .refl _
    split
    · exact .bind .trans (.crash _) fun _ => hclear _
    · exact hclear _

theorem others_checkMapped {n i : Nat} : Keeps (Others d) (checkMapped b n i) := by
  have hused : Keeps (Others d) (sfsBused b) := by
    unfold sfsBused
    refine .bind .trans (.get .refl) fun s => ?_
    split
    · exact .bind .trans (.crash _) fun _ => .pure .refl _
    · exact .pure .refl _
  unfold checkMapped
  exact .ite (.bind .trans hused fun _ => .ite (.crash _) (.pure .refl _)) (.pure .refl _)

theorem others_bmap {n : Nat} {doalloc : Bool} : Keeps (Others d) (sfsBmap d n doalloc) := by
  have hlast : ∀ b n, Keeps (Others d) (do
      checkMapped b n d
      pure b) := fun b n => .bind .trans others_checkMapped fun _ => .pure .refl _
  unfold sfsBmap
  split
  · refine .bind .trans others_getSv fun sv => .ite ?_ (hlast _ _)
    refine .bind .trans ?_ fun b => hlast b _
    exact .bind .trans others_balloc fun _ => .bind .trans (others_modifySv fun _ => rfl) fun _ => .pure .refl _
  split
  · exact .throw .refl _
  refine .bind .trans others_getSv fun sv => .ite (.pure .refl _) (.bind .trans ?_ fun x => .ite ?_ (hlast _ _))
  · unfold loadIndirect
    refine .ite (.bind .trans others_balloc fun _ => .bind .trans (others_modifySv fun _ => rfl)
      fun _ => .pure .refl _) ?_
    exact .bind .trans others_rblock fun _ => .pure .refl _
  · refine .bind .trans ?_ fun b => hlast b _
    exact .bind .trans others_balloc fun _ => .bind .trans others_wblock fun _ => .pure .refl _

theorem others_liftUio {α : Type} {r : Except Panic α} : Keeps (Others d) (liftUio r) := by
  unfold liftUio
  cases r with
  | ok a => exact .pure .refl a
  | error p => exact .crash _

theorem others_partialio {x : Xfer} {skip len : Nat} : Keeps (Others d) (sfsPartialio d x skip len) := by
  unfold sfsPartialio
  refine .bind .trans (.require .refl _ _) fun _ => .bind .trans (.attempt others_bmap) fun r => ?_
  cases r with
  | error e => exact .pure .refl _
  | ok diskblock =>
    have hload : Keeps (Others d) (loadBlock x.uio.uioRw diskblock) :=
      .ite (.bind .trans (.require .refl _ _) fun _ => .pure .refl _) others_rblock
    refine .bind .trans (.attempt hload) fun r => ?_
    cases r with
    | error e => exact .pure .refl _
    | ok iobuf =>
      refine .bind .trans others_liftUio fun y => .bind .trans (.attempt ?_) fun r => ?_
      · unfold storeBlock
        split
        · exact .pure .refl _
        · exact others_wblock
      · cases r <;> exact .pure .refl _

theorem others_blockio {x : Xfer} : Keeps (Others d) (sfsBlockio d x) := by
  unfold sfsBlockio
  refine .bind .trans (.attempt others_bmap) fun r => ?_
  cases r with
  | error e => exact .pure .refl _
  | ok diskblock =>
    refine .ite (.bind .trans (.require .refl _ _) fun _ => .bind .trans others_liftUio fun _ => .pure .refl _) ?_
    unfold blockioDevice
    refine .bind .trans (.require .refl _ _) fun _ => .bind .trans (.attempt ?_) fun r => ?_
    · unfold rwblock
      split
      · exact .bind .trans others_rblock fun _ => .bind .trans others_liftUio fun _ => .pure .refl _
      · exact .bind .trans others_liftUio fun _ => .bind .trans others_wblock fun _ => .pure .refl _
    · cases r <;> exact .pure .refl _

theorem others_blockLoop (n : Nat) (x : Xfer) : Keeps (Others d) (blockLoop d n x) := by
  induction n generalizing x with
  | zero => exact .pure .refl _
  | succ n ih =>
    unfold blockLoop
    refine .bind .trans others_blockio fun r => ?_
    split
    · exact .pure .refl _
    · exact ih _

theorem others_ioBody {x : Xfer} : Keeps (Others d) (sfsIoBody d x) := by
  have haligned : ∀ x, Keeps (Others d) (sfsIoAligned d x) := by
    intro x
    unfold sfsIoAligned
    refine .bind .trans (.require .refl _ _) fun _ => .bind .trans (others_blockLoop _ _) fun r => ?_
    split
    · exact .pure .refl _
    · exact .bind .trans (.require .refl _ _) fun _ => .ite others_partialio (.pure .refl _)
  rw [sfsIoBody_eq]
  refine .bind .trans ?_ fun r => ?_
  · exact .ite others_partialio (.pure .refl _)
  · split
    · exact .pure .refl _
    · exact .ite (.pure .refl _) (haligned _)

theorem others_ioWrite {x : Xfer} : Keeps (Others d) (sfsIoWrite d x) := by
  unfold sfsIoWrite
  refine .bind .trans others_ioBody fun r => .bind .trans others_getSv fun sv => ?_
  split
  · exact .bind .trans (others_modifySv fun _ => rfl) fun _ => .pure .refl _
  · exact .pure .refl _

theorem others_writedir {m : Mem} {k : Nat} : Keeps (Others d) (sfsWritedir d m k) := by
  unfold sfsWritedir sfsIo
  refine .bind .trans (.bind .trans others_getSv fun sv => others_ioWrite) fun r => .bind .trans ?_ fun _ =>
    .ite (.crash _) (.pure .refl _)
  unfold throwIf
  split
  · exact .throw .refl _
  · exact .pure .refl _

end

end Os161
