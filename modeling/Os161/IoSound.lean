import Os161.BmapSound
import Os161.UioSound

/-!
# File I/O

`sfs_io` on a volume that stands for `a`: a read moves the bytes of the file
into the memory of the `uio`, a write moves them the other way. Both go block
by block and stop at the first error; what was moved before stays moved.
-/

namespace Os161

open Bytes Proc

def sfsMaxbytes : Nat := sfsMaxblocks * sfsBlocksize

def Uio.pos (u : Uio) : Nat := u.uioOffset.toNat

variable {c : Prop} {own : Nat → BlockOwner} {s s' : Sfs} {a : Vol} {b i n m k len : Nat} {sv : SfsVnode} {x : Xfer}
  {r : Option Errno × Xfer} {bytes : Nat → UInt8}

theorem Uio.Fits.pos_skip {u : Uio} (h : u.Fits) (n : Nat) : (u.skip n).pos = u.pos + n := by
  have := h.offset
  simp only [Uio.pos, Uio.skip]
  omega

/-! ## The bytes of a block -/

def Sfs.blockOf (s : Sfs) (b : Nat) : Mem := if b = 0 then zeroBlock else s.disk b

theorem byte_blockOf (hn : n < sfsMaxblocks) (hk : k < 512) : s.byte i (n * 512 + k) = s.blockOf (s.ptr i n) k := by
  have hdiv : (n * 512 + k) / sfsBlocksize = n := by
    unfold sfsBlocksize
    omega
  have hmod : (n * 512 + k) % sfsBlocksize = k := by
    unfold sfsBlocksize
    omega
  have hlt : n * 512 + k < sfsMaxblocks * sfsBlocksize := by
    unfold sfsBlocksize
    omega
  unfold Sfs.byte Sfs.blockOf
  rw [hdiv, hmod]
  by_cases hz : s.ptr i n = 0
  · rw [if_neg (fun h => h.2 hz), if_pos hz]
    rfl
  · rw [if_pos ⟨hlt, hz⟩, if_neg hz]

/-! ## Reading -/

def Xfer.get (x : Xfer) (bytes : Nat → UInt8) (n : Nat) : Xfer where
  buf := copyBytes x.buf x.uio.iovKbase (fun k => bytes (x.uio.pos + k)) 0 n
  uio := x.uio.skip n

theorem Xfer.get_zero (x : Xfer) : x.get bytes 0 = x := by
  simp only [Xfer.get, copyBytes_zero, Uio.skip_zero]

theorem Xfer.get_get (hx : x.uio.Fits) (n m : Nat) : (x.get bytes n).get bytes m = x.get bytes (n + m) := by
  simp only [Xfer.get, hx.pos_skip, Uio.skip_skip, Nat.add_assoc, Xfer.mk.injEq, and_true]
  exact copyBytes_append

def ReadResult (c : Prop) (bytes : Nat → UInt8) (x : Xfer) (total : Nat) (r : Option Errno × Xfer) : Prop :=
  (r = (none, x.get bytes total) ∧ (total = 0 ∨ x.uio.pos + total ≤ sfsMaxbytes)) ∨
    ∃ e k, k < total ∧ r = (some e, x.get bytes k) ∧ (e = .einval ∧ sfsMaxbytes ≤ x.uio.pos + k ∨ ¬ c ∧ e = .eio)

theorem ReadResult.trans (hx : x.uio.Fits) (h : ReadResult c bytes (x.get bytes n) m r)
    (hn : x.uio.pos + n ≤ sfsMaxbytes) : ReadResult c bytes x (n + m) r := by
  have hpos : (x.get bytes n).uio.pos = x.uio.pos + n := hx.pos_skip n
  unfold ReadResult at h
  rw [hpos] at h
  rcases h with ⟨hr, hm⟩ | ⟨e, k, hk, hr, he⟩
  · rw [Xfer.get_get hx] at hr
    exact Or.inl ⟨hr, by omega⟩
  · rw [Xfer.get_get hx] at hr
    refine Or.inr ⟨e, n + k, by omega, hr, ?_⟩
    rwa [← Nat.add_assoc]

def PieceResult (c : Prop) (bytes : Nat → UInt8) (x : Xfer) (len : Nat) (r : Option Errno × Xfer) : Prop :=
  (r = (none, x.get bytes len) ∧ x.uio.pos / sfsBlocksize < sfsMaxblocks) ∨
    ∃ e, r = (some e, x) ∧ (e = .einval ∧ sfsMaxblocks ≤ x.uio.pos / sfsBlocksize ∨ ¬ c ∧ e = .eio)

theorem piece_le (hn : x.uio.pos / sfsBlocksize < sfsMaxblocks) (hlen : x.uio.pos % sfsBlocksize + len ≤ sfsBlocksize) :
    x.uio.pos + len ≤ sfsMaxbytes := by
  unfold sfsMaxbytes
  unfold sfsBlocksize at *
  omega

theorem PieceResult.read (h : PieceResult c bytes x len r) (hpos : 0 < len)
    (hlen : x.uio.pos % sfsBlocksize + len ≤ sfsBlocksize) : ReadResult c bytes x len r := by
  rcases h with ⟨rfl, hn⟩ | ⟨e, rfl, he⟩
  · exact Or.inl ⟨rfl, Or.inr (piece_le hn hlen)⟩
  · refine Or.inr ⟨e, 0, hpos, by rw [Xfer.get_zero], he.imp_left fun h => ⟨h.1, ?_⟩⟩
    exact (Nat.le_div_iff_mul_le (by decide)).mp h.2

theorem blockioDevice_read (h : RepAt c own s a) (hx : x.uio.Fits) (hrw : x.uio.uioRw = .read) (hb : b < s.nblocks)
    (hres : sfsBlocksize ≤ x.uio.uioResid) :
    wp (blockioDevice x b)
      (fun r s' => Reads c s s' ∧
        (r = (none, ⟨copyBytes x.buf x.uio.iovKbase (s.disk b) 0 sfsBlocksize, x.uio.skip sfsBlocksize⟩) ∨
          ¬ c ∧ r = (some .eio, x)))
      (fun _ _ => False) (fun _ => False) s := by
  obtain ⟨buf, kbase, ilen, off, resid, rw'⟩ := x
  obtain rfl : rw' = .read := hrw
  have hlt := hx.resid
  have hroom : (⟨kbase, ilen, b * sfsBlocksize, sfsBlocksize, .read⟩ : Uio).Room :=
    ⟨Nat.le_trans hres hx.len, show sfsBlocksize < 2 ^ 32 by decide⟩
  have hmove := @uiomove_in (s.disk b) buf _ _ hroom rfl (Nat.le_refl sfsBlocksize)
  unfold blockioDevice
  simp only [wp_bind, wp_assertFs hres, wp_attempt, rwblock]
  refine h.rblock hb ?_ fun hc => ⟨h.reads_rest, Or.inr ⟨hc, rfl⟩⟩
  rw [hmove]
  refine ⟨h.reads_rest, Or.inl ?_⟩
  have hoff : (b : Int) * sfsBlocksize + sfsBlocksize - b * sfsBlocksize + off = off + sfsBlocksize := by omega
  simp only [Uio.skip, Nat.sub_self, Nat.zero_add, hoff, u32_of_lt (Nat.lt_of_le_of_lt (Nat.sub_le _ _) hlt)]

section
variable (h : RepAt c own s a) (hv : s.vnode i = some sv) (hx : x.uio.Fits) (hrw : x.uio.uioRw = .read)
include h hv hx hrw

theorem partialio_read (hlen : x.uio.pos % sfsBlocksize + len ≤ sfsBlocksize) (hres : len ≤ x.uio.uioResid) :
    wp (sfsPartialio i x (x.uio.pos % sfsBlocksize) len) (fun r s' => Reads c s s' ∧ PieceResult c (s.byte i) x len r)
      (fun _ _ => False) (fun _ => False) s := by
  have hrw' : (x.uio.uioRw == .write) = false := by rw [hrw]; rfl
  unfold sfsPartialio
  rw [wp_bind, wp_assertFs hlen, wp_bind, wp_attempt, hrw']
  refine (bmap_read h hv fun hc => absurd hc Bool.false_ne_true).mono (fun b s₁ => ?_) (fun e s₁ => ?_) fun _ hk => hk
  · rintro ⟨hr₁, hn, hp⟩
    have h₁ := h.reads hr₁
    -- the block as it is read, from the disk or from nowhere
    have hload : wp (attempt (loadBlock x.uio.uioRw b))
        (fun r s' => Reads c s s' ∧ (r = .ok (s.blockOf b) ∨ ¬ c ∧ r = .error .eio)) (fun _ _ => False) (fun _ => False)
        s₁ := by
      rw [wp_attempt]
      unfold loadBlock Sfs.blockOf
      by_cases hb : b = 0
      · rw [if_pos hb, if_pos hb, wp_bind, wp_assertFs hrw]
        exact ⟨hr₁, Or.inl rfl⟩
      · rw [if_neg hb, if_neg hb]
        have hown := h.owned.ptr_own (h.owned.vnode_own hv) hn (by rwa [hp])
        rw [hp] at hown
        obtain ⟨f, rfl, hf⟩ := hr₁
        refine h₁.rblock (h.owned.lt_nblocks (by rw [hown]; simp)) ⟨?_, Or.inl rfl⟩ fun hc => ⟨?_, Or.inr ⟨hc, rfl⟩⟩
        all_goals exact ⟨_, rfl, h₁.rest.calm⟩
    rw [wp_bind]
    refine hload.imp fun r s₂ => ?_
    rintro ⟨hr₂, rfl | ⟨hc, rfl⟩⟩
    · dsimp only
      rw [uiomove_in hx.toRoom hrw hres]
      simp only [liftUio, wp_bind, wp_pure, wp_attempt, storeBlock, hrw]
      refine ⟨hr₂, Or.inl ⟨?_, hn⟩⟩
      simp only [Xfer.get, Prod.mk.injEq, true_and, Xfer.mk.injEq, and_true]
      refine copyBytes_congr fun k hk => ?_
      rw [Nat.zero_add]
      have hbyte := byte_blockOf (s := s) (i := i) hn
        (show x.uio.pos % sfsBlocksize + k < 512 by unfold sfsBlocksize at *; omega)
      rw [hp] at hbyte
      rw [← hbyte]
      congr 1
      have hpos : x.uio.uioOffset.toNat = x.uio.pos := rfl
      unfold sfsBlocksize
      omega
    · exact ⟨hr₂, Or.inr ⟨_, rfl, Or.inr ⟨hc, rfl⟩⟩⟩
  · rintro ⟨hr₁, he⟩
    exact ⟨hr₁, Or.inr ⟨e, rfl, he⟩⟩

theorem blockio_read (halign : x.uio.pos % sfsBlocksize = 0) (hres : sfsBlocksize ≤ x.uio.uioResid) :
    wp (sfsBlockio i x) (fun r s' => Reads c s s' ∧ PieceResult c (s.byte i) x sfsBlocksize r) (fun _ _ => False)
      (fun _ => False) s := by
  have hrw' : (x.uio.uioRw == .write) = false := by rw [hrw]; rfl
  have hresid := hx.resid
  unfold sfsBlockio
  rw [wp_bind, wp_attempt, hrw']
  refine (bmap_read h hv fun hc => absurd hc Bool.false_ne_true).mono (fun b s₁ => ?_) (fun e s₁ => ?_) fun _ hk => hk
  · rintro ⟨hr₁, hn, hp⟩
    have h₁ := h.reads hr₁
    -- the bytes of the file are those of the block
    have hget : copyBytes x.buf x.uio.iovKbase (s.blockOf b) 0 sfsBlocksize = (x.get (s.byte i) sfsBlocksize).buf := by
      show _ = copyBytes x.buf x.uio.iovKbase (fun k => s.byte i (x.uio.pos + k)) 0 sfsBlocksize
      refine copyBytes_congr fun k hk => ?_
      rw [Nat.zero_add]
      have hbyte := byte_blockOf (s := s) (i := i) hn hk
      rw [hp] at hbyte
      rw [← hbyte]
      congr 1
      have hpos : x.uio.uioOffset.toNat = x.uio.pos := rfl
      unfold sfsBlocksize at *
      omega
    have hdone : PieceResult c (s.byte i) x sfsBlocksize (none, x.get (s.byte i) sfsBlocksize) := Or.inl ⟨rfl, hn⟩
    by_cases hb : b = 0
    · have hzero : s.blockOf b = fun _ => 0 := if_pos hb
      rw [hzero] at hget
      simp only [hb, if_true, wp_bind, wp_assertFs hrw]
      rw [uiomovezeros_in hx hrw hres, hget]
      exact ⟨hr₁, hdone⟩
    · have hdisk : s.blockOf b = s.disk b := if_neg hb
      rw [hdisk] at hget
      have hown := h.owned.ptr_own (h.owned.vnode_own hv) hn (by rwa [hp])
      rw [hp] at hown
      obtain ⟨f, rfl, hf⟩ := hr₁
      simp only [hb, if_false]
      refine (blockioDevice_read h₁ hx hrw (h.owned.lt_nblocks (by rw [hown]; simp)) hres).imp fun r s₂ => ?_
      rintro ⟨⟨f', rfl, hf'⟩, rfl | ⟨hc, rfl⟩⟩
      · refine ⟨⟨f', rfl, hf'⟩, ?_⟩
        rw [hget]
        exact hdone
      · exact ⟨⟨f', rfl, hf'⟩, Or.inr ⟨_, rfl, Or.inr ⟨hc, rfl⟩⟩⟩
  · rintro ⟨hr₁, he⟩
    exact ⟨hr₁, Or.inr ⟨e, rfl, he⟩⟩

end

def sfsIoLeading (i : Nat) (x : Xfer) : SfsM (Option Errno × Xfer) :=
  let blkoff := x.uio.uioOffset.toNat % sfsBlocksize
  if blkoff ≠ 0 then sfsPartialio i x blkoff (min (sfsBlocksize - blkoff) x.uio.uioResid) else pure (none, x)

theorem sfsIoBody_eq (i : Nat) (x : Xfer) : sfsIoBody i x = sfsIoLeading i x >>= fun r => match r with
    | (some e, x) => pure (some e, x)
    | (none, x) => if x.uio.uioResid = 0 then pure (none, x) else sfsIoAligned i x := by
  unfold sfsIoBody sfsIoLeading
  dsimp only
  split <;> rfl

theorem Reads.trans {s'' : Sfs} (h : Reads c s s') (h' : Reads c s' s'') : Reads c s s'' := by
  obtain ⟨f, rfl, -⟩ := h
  obtain ⟨f', rfl, hc⟩ := h'
  exact ⟨f', rfl, hc⟩

theorem Reads.byte (h : Reads c s s') : s'.byte i = s.byte i := by
  obtain ⟨f, rfl, -⟩ := h
  rfl

theorem Reads.vnode (h : Reads c s s') : s'.vnode i = s.vnode i := by
  obtain ⟨f, rfl, -⟩ := h
  rfl

/-! ## Piece by piece -/

/-- What reading and writing have in common. `At t s`: the transfer stands at
`t`; `Done t n`: how it ends after `n` more bytes. -/
structure InPieces (i : Nat) {τ : Type} (xfer : τ → Xfer) (adv : τ → Nat → τ) (At : τ → Sfs → Prop)
    (Done : τ → Nat → Option Errno × Xfer → Sfs → Prop) : Prop where
  fits : ∀ {t s}, At t s → (xfer t).uio.Fits
  skip : ∀ t n, (xfer (adv t n)).uio = (xfer t).uio.skip n
  nothing : ∀ {t s}, At t s → Done t 0 (none, xfer t) s
  next : ∀ {t s n r s'}, At t s → Done t n r s' →
    (r = (none, xfer (adv t n)) ∧ At (adv t n) s' ∧ ∀ m r' s'', Done (adv t n) m r' s'' → Done t (n + m) r' s'') ∨
      (∃ e, r.1 = some e) ∧ ∀ m, Done t (n + m) r s'
  piece : ∀ {t s len}, At t s → (xfer t).uio.pos % sfsBlocksize + len ≤ sfsBlocksize → len ≤ (xfer t).uio.uioResid →
    0 < len ∨ (xfer t).uio.uioRw = .write → wp (sfsPartialio i (xfer t) ((xfer t).uio.pos % sfsBlocksize) len)
      (Done t len) (fun _ _ => False) (fun _ => False) s
  block : ∀ {t s}, At t s → (xfer t).uio.pos % sfsBlocksize = 0 → sfsBlocksize ≤ (xfer t).uio.uioResid →
    wp (sfsBlockio i (xfer t)) (Done t sfsBlocksize) (fun _ _ => False) (fun _ => False) s

section
variable {τ : Type} {xfer : τ → Xfer} {adv : τ → Nat → τ} {At : τ → Sfs → Prop}
  {Done : τ → Nat → Option Errno × Xfer → Sfs → Prop} {t : τ} (hm : InPieces i xfer adv At Done) (ht : At t s)
include hm ht

theorem InPieces.followed {p : SfsM (Option Errno × Xfer)} {f : Option Errno × Xfer → SfsM (Option Errno × Xfer)}
    (hp : wp p (Done t n) (fun _ _ => False) (fun _ => False) s)
    (herr : ∀ e y s', f (some e, y) s' = .ok (.ok (some e, y), s'))
    (hf : ∀ s', At (adv t n) s' →
      wp (f (none, xfer (adv t n))) (Done (adv t n) m) (fun _ _ => False) (fun _ => False) s') :
    wp (p >>= f) (Done t (n + m)) (fun _ _ => False) (fun _ => False) s := by
  refine wp_bind.mpr (hp.imp fun r s₁ hr => ?_)
  rcases hm.next ht hr with ⟨rfl, ht', hnext⟩ | ⟨⟨e, he⟩, hstop⟩
  · exact (hf s₁ ht').imp (hnext m)
  · obtain ⟨err, y⟩ := r
    obtain rfl : err = some e := he
    unfold wp
    rw [herr]
    exact hstop m

theorem InPieces.blockLoop (halign : (xfer t).uio.pos % sfsBlocksize = 0)
    (hres : n * sfsBlocksize ≤ (xfer t).uio.uioResid) :
    wp (Os161.blockLoop i n (xfer t)) (Done t (n * sfsBlocksize)) (fun _ _ => False) (fun _ => False) s := by
  induction n generalizing s t with
  | zero =>
    rw [Nat.zero_mul]
    exact hm.nothing ht
  | succ n ih =>
    rw [Nat.succ_mul] at hres
    rw [Nat.succ_mul, Nat.add_comm (n * sfsBlocksize)]
    unfold Os161.blockLoop
    have hblock := hm.block ht halign (Nat.le_trans (Nat.le_add_left _ _) hres)
    refine hm.followed ht hblock (fun _ _ _ => rfl) fun s₁ ht₁ => ih ht₁ ?_ ?_
    · rw [hm.skip, (hm.fits ht).pos_skip, Nat.add_mod_right]
      exact halign
    · rw [hm.skip]
      exact Nat.le_sub_of_add_le hres

theorem InPieces.ioAligned (halign : (xfer t).uio.pos % sfsBlocksize = 0) : wp (sfsIoAligned i (xfer t))
    (Done t (xfer t).uio.uioResid) (fun _ _ => False) (fun _ => False) s := by
  have hloop := hm.blockLoop ht halign (Nat.div_mul_le_self _ sfsBlocksize)
  have htotal := Nat.div_add_mod' (xfer t).uio.uioResid sfsBlocksize
  unfold sfsIoAligned
  rw [wp_bind, wp_assertFs (show (xfer t).uio.uioOffset.toNat % sfsBlocksize = 0 from halign)]
  generalize hn : (xfer t).uio.uioResid / sfsBlocksize * sfsBlocksize = n at htotal hloop
  have hskip : (xfer (adv t n)).uio.uioResid = (xfer t).uio.uioResid % sfsBlocksize := by
    rw [hm.skip]
    show (xfer t).uio.uioResid - n = _
    omega
  rw [← congrArg (Done t) htotal]
  refine hm.followed ht hloop (fun _ _ _ => rfl) fun s₁ ht₁ => ?_
  dsimp only
  rw [wp_bind, wp_assertFs (by rw [hskip]; exact Nat.mod_lt _ (by decide)), hskip]
  by_cases hrest : 0 < (xfer t).uio.uioResid % sfsBlocksize
  · rw [if_pos hrest]
    have hzero : (xfer (adv t n)).uio.pos % sfsBlocksize = 0 := by
      rw [hm.skip, (hm.fits ht).pos_skip, ← hn, Nat.add_mul_mod_self_right]
      exact halign
    have hfit : (xfer (adv t n)).uio.pos % sfsBlocksize + (xfer t).uio.uioResid % sfsBlocksize ≤ sfsBlocksize := by
      rw [hzero, Nat.zero_add]
      exact Nat.le_of_lt (Nat.mod_lt _ (by decide))
    have hpart := hm.piece ht₁ hfit (Nat.le_of_eq hskip.symm) (Or.inl hrest)
    rwa [hzero] at hpart
  · rw [if_neg hrest, Nat.eq_zero_of_not_pos hrest]
    exact hm.nothing ht₁

theorem InPieces.ioBody (hpos : 0 < (xfer t).uio.uioResid ∨ (xfer t).uio.uioRw = .write) : wp (sfsIoBody i (xfer t))
    (Done t (xfer t).uio.uioResid) (fun _ _ => False) (fun _ => False) s := by
  have hsize : sfsBlocksize = 512 := rfl
  rw [sfsIoBody_eq]
  have hfirst : ∃ n ≤ (xfer t).uio.uioResid, (n < (xfer t).uio.uioResid → ((xfer t).uio.pos + n) % sfsBlocksize = 0) ∧
      wp (sfsIoLeading i (xfer t)) (Done t n) (fun _ _ => False) (fun _ => False) s := by
    unfold sfsIoLeading
    have hoffset : (xfer t).uio.uioOffset.toNat = (xfer t).uio.pos := rfl
    rw [hoffset]
    by_cases hoff : (xfer t).uio.pos % sfsBlocksize ≠ 0
    · refine ⟨min (sfsBlocksize - (xfer t).uio.pos % sfsBlocksize) (xfer t).uio.uioResid, Nat.min_le_right _ _, ?_, ?_⟩
      · rw [hsize] at *
        omega
      · dsimp only
        rw [if_pos hoff]
        refine hm.piece ht ?_ (Nat.min_le_right _ _) (hpos.imp_left fun hp => ?_)
        all_goals rw [hsize] at *; omega
    · refine ⟨0, Nat.zero_le _, fun _ => Decidable.not_not.mp hoff, ?_⟩
      dsimp only
      rw [if_neg hoff]
      exact hm.nothing ht
  obtain ⟨n, hle, haligned, hspec⟩ := hfirst
  rw [← congrArg (Done t) (Nat.add_sub_cancel' hle)]
  refine hm.followed ht hspec (fun _ _ _ => rfl) fun s₁ ht₁ => ?_
  have hresid : (xfer t).uio.uioResid - n = (xfer (adv t n)).uio.uioResid := by
    rw [hm.skip]
    rfl
  dsimp only
  rw [hresid]
  by_cases hz : (xfer (adv t n)).uio.uioResid = 0
  · rw [if_pos hz, hz]
    exact hm.nothing ht₁
  · rw [if_neg hz]
    refine hm.ioAligned ht₁ ?_
    rw [hm.skip, (hm.fits ht).pos_skip]
    exact haligned (by omega)

end

theorem read_inPieces (h : RepAt c own s a) (hv : s.vnode i = some sv) : InPieces i id (fun x n => x.get (s.byte i) n)
    (fun x s' => Reads c s s' ∧ x.uio.Fits ∧ x.uio.uioRw = .read)
    fun x n r s' => Reads c s s' ∧ ReadResult c (s.byte i) x n r where
  fits ht := ht.2.1
  skip _ _ := rfl
  nothing ht := ⟨ht.1, Or.inl ⟨by rw [Xfer.get_zero]; rfl, Or.inl rfl⟩⟩
  next := by
    rintro x s₁ n r s' ⟨-, hx, hrw⟩ ⟨hr, ⟨rfl, hn⟩ | ⟨e, k, hk, rfl, he⟩⟩
    · refine Or.inl ⟨rfl, ⟨hr, hx.skip n, hrw⟩, fun m r' s'' h' => ⟨h'.1, ?_⟩⟩
      rcases hn with rfl | hn
      · rw [Nat.zero_add, ← @Xfer.get_zero (s.byte i) x]
        exact h'.2
      · exact h'.2.trans hx hn
    · exact Or.inr ⟨⟨e, rfl⟩, fun m => ⟨hr, Or.inr ⟨e, k, Nat.lt_add_right m hk, rfl, he⟩⟩⟩
  piece := by
    rintro x s₁ len ⟨hr, hx, hrw⟩ hfit hres hlen
    have hspec := partialio_read (h.reads hr) (hr.vnode.trans hv) hx hrw hfit hres
    rw [hr.byte] at hspec
    refine hspec.imp fun r s' hq => ⟨hr.trans hq.1, hq.2.read (hlen.resolve_right fun hw => ?_) hfit⟩
    cases hrw.symm.trans hw
  block := by
    rintro x s₁ ⟨hr, hx, hrw⟩ halign hres
    have hspec := blockio_read (h.reads hr) (hr.vnode.trans hv) hx hrw halign hres
    rw [hr.byte] at hspec
    refine hspec.imp fun r s' hq => ⟨hr.trans hq.1, hq.2.read (by decide) ?_⟩
    exact Nat.le_of_eq (by rw [show x.uio.pos % sfsBlocksize = 0 from halign, Nat.zero_add])

section
variable (h : RepAt c own s a) (hv : s.vnode i = some sv) (hx : x.uio.Fits) (hrw : x.uio.uioRw = .read)
include h hv hx hrw

theorem ioBody_read (hpos : 0 < x.uio.uioResid) : wp (sfsIoBody i x)
    (fun r s' => Reads c s s' ∧ ReadResult c (s.byte i) x x.uio.uioResid r) (fun _ _ => False) (fun _ => False) s :=
  (read_inPieces h hv).ioBody (t := x) ⟨h.reads_refl, hx, hrw⟩ (Or.inl hpos)

theorem ioBody_read_nothing (hz : x.uio.uioResid = 0) :
    wp (sfsIoBody i x) (fun r s' => Reads c s s' ∧ (r = (none, x) ∨
      ∃ e, r = (some e, x) ∧ (e = .einval ∧ sfsMaxblocks ≤ x.uio.pos / sfsBlocksize ∨ ¬ c ∧ e = .eio)))
      (fun _ _ => False) (fun _ => False) s := by
  rw [sfsIoBody_eq, wp_bind]
  unfold sfsIoLeading
  change wp (if x.uio.pos % sfsBlocksize ≠ 0 then sfsPartialio i x (x.uio.pos % sfsBlocksize)
    (min (sfsBlocksize - x.uio.pos % sfsBlocksize) x.uio.uioResid) else pure (none, x)) _ _ _ s
  rw [hz, Nat.min_zero]
  split
  · have hfit : x.uio.pos % sfsBlocksize + 0 ≤ sfsBlocksize := Nat.le_of_lt (Nat.mod_lt _ (by decide))
    refine (partialio_read h hv hx hrw hfit (Nat.zero_le _)).imp fun r s' => ?_
    rintro ⟨hr, ⟨rfl, -⟩ | ⟨e, rfl, he⟩⟩
    · rw [Xfer.get_zero]
      dsimp only
      rw [if_pos hz]
      exact ⟨hr, Or.inl rfl⟩
    · exact ⟨hr, Or.inr ⟨e, rfl, he⟩⟩
  · rw [wp_pure]
    dsimp only
    rw [if_pos hz]
    exact ⟨h.reads_refl, Or.inl rfl⟩

end

/-! ## The end of the file -/

theorem toOff_u32 {z : Nat} : toOff (u32 z) = z ↔ z < 2 ^ 31 := by
  unfold toOff u32
  split <;> omega

theorem toOff_u32_le (z : Nat) : toOff (u32 z) ≤ z := by
  unfold toOff u32
  split <;> omega

section
variable (h : RepAt c own s a) (hv : s.vnode i = some sv) (hx : x.uio.Fits) (hrw : x.uio.uioRw = .read)
include h hv hx hrw

theorem ioBody_gets : wp (sfsIoBody i x) (fun r s' => Reads c s s' ∧ ∃ k, r.2 = x.get (s.byte i) k) (fun _ _ => False)
    (fun _ => False) s := by
  rcases Nat.eq_zero_or_pos x.uio.uioResid with hz | hp
  · refine (ioBody_read_nothing h hv hx hrw hz).imp fun r s' => ?_
    rintro ⟨hr, rfl | ⟨e, rfl, -⟩⟩
    · exact ⟨hr, 0, by rw [Xfer.get_zero]⟩
    · exact ⟨hr, 0, by rw [Xfer.get_zero]⟩
  · refine (ioBody_read h hv hx hrw hp).imp fun r s' => ?_
    rintro ⟨hr, ⟨rfl, -⟩ | ⟨e, k, -, rfl, -⟩⟩
    · exact ⟨hr, _, rfl⟩
    · exact ⟨hr, k, rfl⟩

theorem sfsIo_gets : wp (sfsIo i x)
    (fun r s' => Reads c s s' ∧ ∃ k, r.2.buf = (x.get (s.byte i) k).buf ∧ r.2.uio.pos = x.uio.pos + k)
    (fun _ _ => False) (fun _ => False) s := by
  have hpos : x.uio.uioOffset = x.uio.pos := (Int.toNat_of_nonneg hx.offset).symm
  unfold sfsIo
  rw [wp_bind, wp_getSv hv, hrw]
  dsimp only
  unfold sfsIoRead
  have hend := toOff_u32_le (x.uio.uioOffset.toNat + x.uio.uioResid)
  generalize toOff (u32 (x.uio.uioOffset.toNat + x.uio.uioResid)) = endpos at hend ⊢
  generalize toOff sv.svI.sfiSize = size
  dsimp only
  by_cases hle : size ≤ x.uio.uioOffset
  · rw [if_pos hle]
    exact ⟨h.reads_refl, 0, by rw [Xfer.get_zero], rfl⟩
  rw [if_neg hle]
  by_cases hclamp : size < endpos
  · rw [if_pos hclamp, wp_bind, wp_assertFs (by omega), wp_bind]
    generalize (endpos - size).toNat = extra
    have hfits : ({ x.uio with uioResid := x.uio.uioResid - extra } : Uio).Fits :=
      ⟨⟨Nat.le_trans (Nat.sub_le _ _) hx.len, Nat.lt_of_le_of_lt (Nat.sub_le _ _) hx.resid⟩, hx.offset⟩
    refine (ioBody_gets h hv (x := { x with uio := { x.uio with uioResid := x.uio.uioResid - extra } }) hfits hrw).imp
      fun r s' => ?_
    obtain ⟨e, y⟩ := r
    rintro ⟨hr, k, rfl⟩
    exact ⟨hr, k, rfl, hx.pos_skip k⟩
  · rw [if_neg hclamp]
    refine (ioBody_gets h hv hx hrw).imp fun r s' => ?_
    rintro ⟨hr, k, hk⟩
    exact ⟨hr, k, by rw [hk], by rw [hk]; exact hx.pos_skip k⟩

end

def ReadsToEof (s : Sfs) (i : Nat) (x : Xfer) : Prop :=
  ∃ s', sfsIo i x s = .ok (.ok (none, x.get (s.byte i) (min x.uio.uioResid ((s.inode i).sfiSize - x.uio.pos))), s')

section
variable (h : RepAt c own s a) (hv : s.vnode i = some sv) (hx : x.uio.Fits) (hrw : x.uio.uioRw = .read)
  (hsize : (s.inode i).sfiSize ≤ sfsMaxbytes) (hlt : x.uio.pos < (s.inode i).sfiSize)
  (hle : x.uio.pos + x.uio.uioResid ≤ (s.inode i).sfiSize)
include h hv hx hrw hsize hlt hle

theorem ioBody_within :
    wp (sfsIoBody i x)
      (fun r s' => Reads c s s' ∧ (r = (none, x.get (s.byte i) x.uio.uioResid) ∨ ¬ c ∧ r.1 = some .eio))
      (fun _ _ => False) (fun _ => False) s := by
  rcases Nat.eq_zero_or_pos x.uio.uioResid with hz | hp
  · have hn : x.uio.pos / sfsBlocksize < sfsMaxblocks := by
      refine Nat.div_lt_of_lt_mul ?_
      rw [Nat.mul_comm]
      exact Nat.lt_of_lt_of_le hlt hsize
    refine (ioBody_read_nothing h hv hx hrw hz).imp fun r s' => ?_
    rintro ⟨hr, rfl | ⟨e, rfl, ⟨-, he⟩ | ⟨hc, rfl⟩⟩⟩
    · exact ⟨hr, Or.inl (by rw [hz, Xfer.get_zero])⟩
    · exact absurd hn (Nat.not_lt.mpr he)
    · exact ⟨hr, Or.inr ⟨hc, rfl⟩⟩
  · refine (ioBody_read h hv hx hrw hp).imp fun r s' => ?_
    rintro ⟨hr, ⟨rfl, -⟩ | ⟨e, k, hk, rfl, ⟨-, he⟩ | ⟨hc, rfl⟩⟩⟩
    · exact ⟨hr, Or.inl rfl⟩
    · omega
    · exact ⟨hr, Or.inr ⟨hc, rfl⟩⟩

theorem sfsIo_within :
    wp (sfsIo i x)
      (fun r s' => Reads c s s' ∧ (r = (none, x.get (s.byte i) x.uio.uioResid) ∨ ¬ c ∧ r.1 = some .eio))
      (fun _ _ => False) (fun _ => False) s := by
  have hmax : sfsMaxbytes = 73216 := by decide
  have hpos : x.uio.uioOffset = x.uio.pos := (Int.toNat_of_nonneg hx.offset).symm
  have hend : toOff (u32 (x.uio.pos + x.uio.uioResid)) = ((x.uio.pos + x.uio.uioResid : Nat) : Int) :=
    toOff_u32.mpr (by omega)
  have hin := vnode_inode hv
  have hsz : toOff sv.svI.sfiSize = (s.inode i).sfiSize := by
    rw [hin] at hsize ⊢
    exact if_pos (by omega)
  unfold sfsIo
  rw [wp_bind, wp_getSv hv, hrw]
  dsimp only
  unfold sfsIoRead
  rw [hsz, hpos, Int.toNat_natCast, hend, if_neg (by omega), if_neg (by omega)]
  exact ioBody_within h hv hx hrw hsize hlt hle

end

section
variable (h : RepAt True own s a) (hv : s.vnode i = some sv) (hx : x.uio.Fits) (hrw : x.uio.uioRw = .read)
  (hoff : x.uio.pos < 2 ^ 31) (hsize : (s.inode i).sfiSize ≤ sfsMaxbytes)
include h hv hx hrw hoff hsize

theorem sfsIo_read : wp (sfsIo i x) (fun r _ =>
    (((s.inode i).sfiSize ≤ x.uio.pos ∨ x.uio.pos + x.uio.uioResid < 2 ^ 31) →
      r = (none, x.get (s.byte i) (min x.uio.uioResid ((s.inode i).sfiSize - x.uio.pos)))) ∧
    (x.uio.pos < (s.inode i).sfiSize → 2 ^ 31 ≤ x.uio.pos + x.uio.uioResid → ∃ y, r = (some .einval, y)))
    (fun _ _ => False) (fun _ => False) s := by
  have hmax : sfsMaxbytes = 73216 := by decide
  have hin := vnode_inode hv
  have hsz : toOff sv.svI.sfiSize = (s.inode i).sfiSize := by
    rw [hin] at hsize ⊢
    exact if_pos (by omega)
  have hpos : x.uio.uioOffset = x.uio.pos := (Int.toNat_of_nonneg hx.offset).symm
  have hresid := hx.resid
  unfold sfsIo
  rw [wp_bind, wp_getSv hv, hrw]
  dsimp only
  unfold sfsIoRead
  rw [hsz, hpos]
  generalize hend : toOff (u32 ((x.uio.pos : Int).toNat + x.uio.uioResid)) = endpos
  rw [Int.toNat_natCast] at hend
  by_cases hle : (s.inode i).sfiSize ≤ x.uio.pos
  · rw [if_pos (Int.ofNat_le.mpr hle)]
    refine ⟨fun _ => ?_, fun hlt => absurd hle (Nat.not_le.mpr hlt)⟩
    rw [Nat.sub_eq_zero_of_le hle, Nat.min_zero, Xfer.get_zero]
  rw [if_neg (by omega)]
  by_cases hwrap : x.uio.pos + x.uio.uioResid < 2 ^ 31
  · -- the end of the request is computed as it should be
    obtain rfl : endpos = ((x.uio.pos + x.uio.uioResid : Nat) : Int) := hend.symm.trans (toOff_u32.mpr hwrap)
    by_cases hclamp : (s.inode i).sfiSize < x.uio.pos + x.uio.uioResid
    · rw [if_pos (by omega), wp_bind, wp_assertFs (by omega), wp_bind]
      generalize hextra : (((x.uio.pos + x.uio.uioResid : Nat) : Int) - (s.inode i).sfiSize).toNat = extra
      have hfits : ({ x.uio with uioResid := x.uio.uioResid - extra } : Uio).Fits :=
        ⟨⟨Nat.le_trans (Nat.sub_le _ _) hx.len, Nat.lt_of_le_of_lt (Nat.sub_le _ _) hresid⟩, hx.offset⟩
      have hbody := ioBody_within h hv (x := { x with uio := { x.uio with uioResid := x.uio.uioResid - extra } }) hfits
        hrw hsize (Nat.lt_of_not_le hle) (show x.uio.pos + (x.uio.uioResid - extra) ≤ _ by omega)
      refine hbody.imp fun r s' => ?_
      rintro ⟨-, rfl | ⟨hc, -⟩⟩
      case inr => exact absurd trivial hc
      refine ⟨fun _ => ?_, fun _ hge => absurd hwrap (Nat.not_lt.mpr hge)⟩
      have hn : min x.uio.uioResid ((s.inode i).sfiSize - x.uio.pos) = x.uio.uioResid - extra := by omega
      have hback : u32 (x.uio.uioResid - extra - (x.uio.uioResid - extra) + extra) =
          x.uio.uioResid - (x.uio.uioResid - extra) := by
        rw [u32_of_lt] <;> omega
      simp only [Xfer.get, Uio.skip, hn, hback]
      rfl
    · rw [if_neg (by omega)]
      refine (ioBody_within h hv hx hrw hsize (by omega) (by omega)).imp fun r s' => ?_
      rintro ⟨-, rfl | ⟨hc, -⟩⟩
      case inr => exact absurd trivial hc
      refine ⟨fun _ => ?_, fun _ hge => absurd hwrap (Nat.not_lt.mpr hge)⟩
      rw [Nat.min_eq_left (by omega)]
  · -- the end wraps and lies before the end of the file
    have hsmall : ¬ ((s.inode i).sfiSize : Int) < endpos := by
      rw [← hend]
      unfold toOff u32
      split <;> omega
    rw [if_neg hsmall]
    refine (ioBody_read h hv hx hrw (by omega)).imp fun r s' => ?_
    rintro ⟨-, ⟨-, hno⟩ | ⟨e, k, hk, rfl, ⟨rfl, -⟩ | ⟨hc, -⟩⟩⟩
    · omega
    · refine ⟨fun hc => ?_, fun _ _ => ⟨_, rfl⟩⟩
      rcases hc with hc | hc
      · exact absurd hc hle
      · exact absurd hc hwrap
    · exact absurd trivial hc

/-- A read returns what it should exactly if the end of the request is an
`off_t` or the file ends before the request begins. That end is computed
without wrapping exactly if it is an `off_t`. -/
theorem read_to_eof_iff : ((ReadsToEof s i x ∧ toOff (u32 (x.uio.pos + x.uio.uioResid)) =
      (x.uio.pos + x.uio.uioResid : Nat)) ↔ x.uio.pos + x.uio.uioResid < 2 ^ 31) ∧
    (ReadsToEof s i x ↔ (s.inode i).sfiSize ≤ x.uio.pos ∨ x.uio.pos + x.uio.uioResid < 2 ^ 31) := by
  obtain ⟨r, s', he, hgood, hbad⟩ := (sfsIo_read h hv hx hrw hoff hsize).returns
  have hiff : ReadsToEof s i x ↔ (s.inode i).sfiSize ≤ x.uio.pos ∨ x.uio.pos + x.uio.uioResid < 2 ^ 31 := by
    constructor
    · rintro ⟨s'', hr⟩
      by_contra hc
      rw [not_or, Nat.not_le, Nat.not_lt] at hc
      obtain ⟨y, rfl⟩ := hbad hc.1 hc.2
      rw [he] at hr
      simp at hr
    · intro hc
      exact ⟨s', by rw [he, hgood hc]⟩
  refine ⟨⟨fun hp => toOff_u32.mp hp.2, fun hlt => ⟨hiff.mpr (Or.inr hlt), toOff_u32.mpr hlt⟩⟩, hiff⟩

end

theorem oneBlock_rep {size : Nat} {m : Mem} (hsize : size < 2 ^ 32) : RepAt True oneOwner (oneBlock size m)
    { live := fun i => oneOwner i = .inode, view := (oneBlock size m).view, table := (oneBlock size m).table } :=
  ⟨oneBlock_owned hsize, fun _ => Iff.rfl, fun _ _ => rfl, rfl, fun _ => rfl⟩

theorem read_to_eof_ten : ReadsToEof (oneBlock 1 zeroBlock) 3 (readXfer 0 10) :=
  (read_to_eof_iff (oneBlock_rep (by decide)) rfl ⟨⟨Nat.le_refl _, by decide⟩, Int.le_refl _⟩ rfl (by decide)
    (by decide)).2.mpr (Or.inr (by decide))

theorem read_past_off_t : toOff (u32 (2 ^ 31)) = -2 ^ 31 ∧
    (∃ y s', sfsIo 3 (readXfer 0 (2 ^ 31)) (oneBlock 1 zeroBlock) = .ok (.ok (some .einval, y), s')) ∧
    ¬ ReadsToEof (oneBlock 1 zeroBlock) 3 (readXfer 0 (2 ^ 31)) := by
  generalize hn : 2 ^ 31 = n
  have hfits : (readXfer 0 n).uio.Fits := ⟨⟨Nat.le_refl _, show n < 2 ^ 32 by omega⟩, Int.le_refl _⟩
  have hread := @sfsIo_read oneOwner (oneBlock 1 zeroBlock) _ 3 _ (readXfer 0 n)
    (oneBlock_rep (by decide)) rfl hfits rfl (show 0 < 2 ^ 31 by decide) (by decide)
  obtain ⟨r, s', he, -, hbad⟩ := hread.returns
  obtain ⟨y, rfl⟩ := hbad (show 0 < 1 by decide) (show 2 ^ 31 ≤ 0 + n by omega)
  refine ⟨by rw [← hn]; decide, ⟨y, s', he⟩, ?_⟩
  rintro ⟨s'', hr⟩
  rw [he] at hr
  simp at hr

end Os161
