import Os161.StoreSound

/-!
# Directories

A directory is a file of slots. `sfs_dir_findname` looks at every one of them,
and an entry is written into one, within a block, so that it is stored as a
whole or not at all.
-/

namespace Os161

open Bytes Proc

/-! ## Slots -/

def Vol.slot (a : Vol) (d k : Nat) : Mem := fun y => if y < dirSize then (a.view d).bytes (k * dirSize + y) else 0

def Vol.nslots (a : Vol) (d : Nat) : Nat := (a.view d).size / dirSize

def Vol.slotIno (a : Vol) (d k : Nat) : Nat := entryIno (a.slot d k)

def Vol.slotName (a : Vol) (d k : Nat) : List UInt8 := entryName (a.slot d k)

/-- A directory that holds whole slots and no name twice. Nothing is left
behind its last slot. -/
structure DirOk (a : Vol) (d : Nat) : Prop where
  type : (a.view d).type = sfsTypeDir
  size : (a.view d).size % dirSize = 0
  max : (a.view d).size ≤ sfsMaxbytes
  names : ∀ k < a.nslots d, ∀ l < a.nslots d, a.slotIno d k ≠ sfsNoino → a.slotIno d l ≠ sfsNoino →
    a.slotName d k = a.slotName d l → k = l
  beyond : ∀ k, a.nslots d ≤ k → a.slotIno d k = sfsNoino

def Vol.setSlot (a : Vol) (d k : Nat) (sd : Mem) : Vol :=
  a.setView d { a.view d with
    size := max (a.view d).size ((k + 1) * dirSize)
    bytes := copyBytes (a.view d).bytes (k * dirSize) sd 0 dirSize }

section
variable {c : Prop} {own : Nat → BlockOwner} {s s' : Sfs} {a : Vol} {d k n ino : Nat} {sv : SfsVnode} {m : Mem}
  {name : CString} {E : Errno → Sfs → Prop} {K : FsPanic → Prop}

theorem DirOk.nslots_mul (h : DirOk a d) : a.nslots d * dirSize = (a.view d).size :=
  Nat.div_mul_cancel (Nat.dvd_of_mod_eq_zero h.size)

theorem DirOk.slot_le (h : DirOk a d) (hk : k < a.nslots d) : (k + 1) * dirSize ≤ (a.view d).size := by
  rw [← h.nslots_mul]
  exact Nat.mul_le_mul_right _ hk

theorem slot_in_block (k : Nat) : k * dirSize % sfsBlocksize + dirSize ≤ sfsBlocksize := by
  rw [show dirSize = 64 from rfl, show sfsBlocksize = 512 from rfl]
  omega

/-! ## Entries -/

theorem entryIno_congr {m m' : Mem} (h : ∀ y < dirSize, m y = m' y) : entryIno m = entryIno m' :=
  getBE_congr fun x _ hx => h x (Nat.lt_trans hx (by decide))

theorem entryName_congr {m m' : Mem} (h : ∀ y < dirSize, m y = m' y) : entryName m = entryName m' := by
  unfold entryName readString
  congr 1
  refine List.map_congr_left fun k hk => h _ ?_
  have hlt := List.mem_range.mp hk
  have hd : dirSize = 64 := rfl
  have hn : sfsNamelen - 1 = 59 := rfl
  omega

theorem entryIno_dirEntry (h : ino < 2 ^ 32) : entryIno (dirEntry ino name) = ino := by
  have hcongr : entryIno (dirEntry ino name) = getBE (putBE zeroBlock 0 4 ino) 0 4 :=
    getBE_congr fun x _ hx => if_pos (by omega)
  rw [hcongr, getBE_putBE]
  exact Nat.mod_eq_of_lt h

theorem entryIno_zeroBlock : entryIno zeroBlock = sfsNoino := getBE_zeroBlock 0 4

theorem readString_eq {b : Mem} {p len : Nat} (hlen : strlen name ≤ len) (hb : ∀ k, b (p + k) = name.byte k) :
    readString b p len = name.chars := by
  have hmap : (List.range len).map (fun k => b (p + k)) = name.chars ++ List.replicate (len - strlen name) 0 := by
    refine List.ext_getElem (by simp [strlen] at hlen ⊢; omega) fun k h₁ h₂ => ?_
    rw [List.getElem_map, List.getElem_range, hb, CString.byte, List.getElem_append]
    split
    · rename_i hk
      exact List.getD_eq_getElem _ _ hk
    · rename_i hk
      rw [List.getElem_replicate]
      exact List.getD_eq_default _ _ (Nat.le_of_not_lt hk)
  have hall : ∀ x ∈ name.chars, decide (x ≠ 0) = true := fun x hx =>
    decide_eq_true fun e : x = 0 => name.noNul (e ▸ hx)
  unfold readString
  rw [hmap, List.takeWhile_append_of_pos hall]
  cases len - strlen name <;> simp [List.replicate_succ]

theorem entryName_dirEntry (h : strlen name < sfsNamelen) : entryName (dirEntry ino name) = name.chars := by
  refine readString_eq (Nat.le_sub_one_of_lt h) fun k => ?_
  unfold dirEntry
  rw [if_neg (by omega), Nat.add_sub_cancel_left]

/-! ## Slots after a write -/

theorem slot_setSlot_self : ∀ y < dirSize, (a.setSlot d k m).slot d k y = m y := by
  intro y hy
  simp only [Vol.slot, Vol.setSlot, Vol.setView, Function.update_self, if_pos hy, copyBytes]
  rw [if_pos (by omega)]
  congr 1
  omega

theorem slot_setSlot_of_ne {l : Nat} (hl : l ≠ k) : (a.setSlot d k m).slot d l = a.slot d l := by
  funext y
  simp only [Vol.slot, Vol.setSlot, Vol.setView, Function.update_self, copyBytes]
  split
  · rename_i hy
    have hd : dirSize = 64 := rfl
    rw [if_neg]
    rw [hd] at hy ⊢
    omega
  · rfl

theorem slotIno_setSlot (l : Nat) : (a.setSlot d k m).slotIno d l = if l = k then entryIno m else a.slotIno d l := by
  split
  · rename_i hl
    rw [hl]
    exact entryIno_congr slot_setSlot_self
  · rename_i hl
    unfold Vol.slotIno
    rw [slot_setSlot_of_ne hl]

theorem slotName_setSlot (l : Nat) :
    (a.setSlot d k m).slotName d l = if l = k then entryName m else a.slotName d l := by
  split
  · rename_i hl
    rw [hl]
    exact entryName_congr slot_setSlot_self
  · rename_i hl
    unfold Vol.slotName
    rw [slot_setSlot_of_ne hl]

theorem nslots_setSlot (h : DirOk a d) : (a.setSlot d k m).nslots d = max (a.nslots d) (k + 1) := by
  have hs := h.nslots_mul
  simp only [Vol.nslots, Vol.setSlot, Vol.setView, Function.update_self]
  rw [← hs, Nat.mul_div_cancel _ (by decide), Nat.mul_max_mul_right, Nat.mul_div_cancel _ (by decide)]

/-! ## Reading entries -/

theorem RepAt.inode_size (h : RepAt c own s a) (hl : a.Loaded d) : (s.inode d).sfiSize = (a.view d).size :=
  congrArg FileView.size (h.view d (h.live_of_loaded hl))

theorem RepAt.byte_eq (h : RepAt c own s a) (hl : a.Loaded d) : s.byte d = (a.view d).bytes :=
  congrArg FileView.bytes (h.view d (h.live_of_loaded hl))

theorem RepAt.inode_type (h : RepAt c own s a) (hl : a.Loaded d) : (s.inode d).sfiType = (a.view d).type :=
  congrArg FileView.type (h.view d (h.live_of_loaded hl))

section
variable (h : RepAt c own s a) (hl : a.Loaded d) (hd : DirOk a d)
include h hl hd

theorem readdir_spec (hk : k < a.nslots d) :
    wp (sfsReaddir d k) (fun r s' => Reads c s s' ∧ r = a.slot d k) (fun e s' => Reads c s s' ∧ ¬ c ∧ e = .eio)
      (fun _ => False) s := by
  obtain ⟨sv, hv⟩ := h.vnode hl
  have hslot := hd.slot_le hk
  rw [Nat.succ_mul] at hslot
  have hfits : (mkKuio dirSize (k * dirSize) .read).Fits :=
    ⟨⟨Nat.le_refl _, show dirSize < 2 ^ 32 by decide⟩, Int.natCast_nonneg _⟩
  have hio := sfsIo_within (x := { buf := zeroBlock, uio := mkKuio dirSize (k * dirSize) .read }) h hv hfits rfl
    (by rw [h.inode_size hl]; exact hd.max)
    (by
      rw [h.inode_size hl]
      show k * dirSize < _
      exact Nat.lt_of_lt_of_le (Nat.lt_add_of_pos_right (by decide)) hslot)
    (by rw [h.inode_size hl]; exact hslot)
  unfold sfsReaddir
  refine hio.bind (fun r s₁ => ?_) fun _ _ hf => hf.elim
  rintro ⟨hr, rfl | ⟨hc, he⟩⟩
  · dsimp only
    rw [h.byte_eq hl]
    simp only [throwIf, wp_bind, wp_pure]
    have hres : ¬ 0 < (Xfer.get { buf := zeroBlock, uio := mkKuio dirSize (k * dirSize) .read } (a.view d).bytes
        (mkKuio dirSize (k * dirSize) .read).uioResid).uio.uioResid :=
      Nat.not_lt.mpr (Nat.le_of_eq (Nat.sub_self _))
    rw [if_neg hres]
    refine ⟨hr, ?_⟩
    funext y
    simp only [Xfer.get, copyBytes, Vol.slot, mkKuio, Nat.zero_add, Nat.zero_le, true_and, Nat.sub_zero]
    rfl
  · obtain ⟨e, y⟩ := r
    obtain rfl : e = some .eio := he
    exact ⟨hr, hc, rfl⟩

end

structure Found (a : Vol) (d : Nat) (name : CString) (n : Nat) (r : DirFound) : Prop where
  found : ∀ ino k, r.found = some (ino, k) ↔
    k < n ∧ a.slotIno d k = ino ∧ ino ≠ sfsNoino ∧ a.slotName d k = name.chars
  empty : ∀ k, r.emptyslot = some k → k < n ∧ a.slotIno d k = sfsNoino

section
variable {r : DirFound} (h : Found a d name n r)
include h

theorem Found.skip (hi : a.slotIno d n = sfsNoino) : Found a d name (n + 1) { r with emptyslot := some n } := by
  refine ⟨fun ino k => ?_, fun k hk => ?_⟩
  · rw [h.found]
    refine ⟨fun ⟨hk, hrest⟩ => ⟨Nat.lt_succ_of_lt hk, hrest⟩, fun ⟨hk, he, h0, hn⟩ => ?_⟩
    rcases Nat.lt_succ_iff_lt_or_eq.mp hk with hk | rfl
    · exact ⟨hk, he, h0, hn⟩
    · exact absurd (he.symm.trans hi) h0
  · obtain rfl : n = k := by simpa using hk
    exact ⟨Nat.lt_succ_self _, hi⟩

theorem Found.other (hn : a.slotName d n ≠ name.chars) : Found a d name (n + 1) r := by
  refine ⟨fun ino k => ?_, fun k hk => ⟨Nat.lt_succ_of_lt (h.empty k hk).1, (h.empty k hk).2⟩⟩
  rw [h.found]
  refine ⟨fun ⟨hk, hrest⟩ => ⟨Nat.lt_succ_of_lt hk, hrest⟩, fun ⟨hk, he, h0, hname⟩ => ?_⟩
  rcases Nat.lt_succ_iff_lt_or_eq.mp hk with hk | rfl
  · exact ⟨hk, he, h0, hname⟩
  · exact absurd hname hn

variable (hd : DirOk a d) (hlt : n < a.nslots d) (hi : a.slotIno d n ≠ sfsNoino) (hn : a.slotName d n = name.chars)
include hd hlt hi hn

theorem Found.first : r.found = none := by
  cases hr : r.found with
  | none => rfl
  | some p =>
    obtain ⟨ino, k⟩ := p
    obtain ⟨hk, he, h0, hname⟩ := (h.found ino k).mp hr
    have := hd.names k (Nat.lt_trans hk hlt) n hlt (he ▸ h0) hi (hname.trans hn.symm)
    omega

theorem Found.here : Found a d name (n + 1) { r with found := some (a.slotIno d n, n) } := by
  refine ⟨fun ino k => ?_, fun k hk => ⟨Nat.lt_succ_of_lt (h.empty k hk).1, (h.empty k hk).2⟩⟩
  constructor
  · intro e
    obtain ⟨rfl, rfl⟩ : a.slotIno d n = ino ∧ n = k := by simpa using e
    exact ⟨Nat.lt_succ_self _, rfl, hi, hn⟩
  · rintro ⟨hk, rfl, h0, hname⟩
    have hkn := hd.names k (Nat.lt_of_lt_of_le hk hlt) n hlt h0 hi (hname.trans hn.symm)
    rw [hkn]

end

section
variable (h : RepAt c own s a) (hl : a.Loaded d) (hd : DirOk a d)
include h hl hd

theorem findLoop_spec {i : Nat} {r : DirFound} (hr : Found a d name i r) (hn : i + n ≤ a.nslots d) :
    wp (findLoop d name n i r) (fun r' s' => Reads c s s' ∧ Found a d name (i + n) r')
      (fun e s' => Reads c s s' ∧ ¬ c ∧ e = .eio) (fun _ => False) s := by
  induction n generalizing i r s with
  | zero => exact ⟨h.reads_refl, hr⟩
  | succ n ih =>
    have hi : i < a.nslots d := by omega
    unfold findLoop
    refine (readdir_spec h hl hd hi).bind (fun m s₁ => ?_) fun _ _ he => he
    rintro ⟨hr₁, rfl⟩
    -- the rest of the slots
    have hrest : ∀ r', Found a d name (i + 1) r' → wp (findLoop d name n (i + 1) r')
        (fun r' s' => Reads c s s' ∧ Found a d name (i + (n + 1)) r') (fun e s' => Reads c s s' ∧ ¬ c ∧ e = .eio)
        (fun _ => False) s₁ := by
      intro r' hr'
      refine (ih (h.reads hr₁) hr' (by omega)).mono (fun r'' s₂ hq => ?_) (fun e s₂ hq => ?_) fun _ hk => hk
      · rw [show i + (n + 1) = i + 1 + n by omega]
        exact ⟨hr₁.trans hq.1, hq.2⟩
      · exact ⟨hr₁.trans hq.1, hq.2⟩
    have hino : entryIno (a.slot d i) = a.slotIno d i := rfl
    have hname : entryName (a.slot d i) = a.slotName d i := rfl
    rw [hino, hname]
    split
    · rename_i h0
      exact hrest _ (hr.skip h0)
    rename_i h0
    split
    · rename_i he
      rw [wp_bind, wp_assertFs (hr.first hd hi h0 he)]
      exact hrest _ (hr.here hd hi h0 he)
    · rename_i he
      exact hrest _ (hr.other he)

theorem dirNentries_spec {Q : Nat → Sfs → Prop} (hQ : Q (a.nslots d) s) : wp (sfsDirNentries d) Q E K s := by
  obtain ⟨sv, hv⟩ := h.vnode hl
  have hin := vnode_inode hv
  have htype : sv.svI.sfiType = sfsTypeDir := by
    rw [← hin, h.inode_type hl]
    exact hd.type
  have hsize : sv.svI.sfiSize = (a.view d).size := by rw [← hin, h.inode_size hl]
  unfold sfsDirNentries
  rw [wp_bind, wp_getSv hv, wp_bind, wp_assertFs htype, hsize, if_neg (not_not_intro hd.size)]
  exact hQ

theorem findname_spec :
    wp (sfsDirFindname d name) (fun r s' => Reads c s s' ∧ Found a d name (a.nslots d) r)
      (fun e s' => Reads c s s' ∧ ¬ c ∧ e = .eio) (fun _ => False) s := by
  unfold sfsDirFindname
  rw [wp_bind]
  refine dirNentries_spec h hl hd ?_
  have hstart : Found a d name 0 { found := none, emptyslot := none } := ⟨fun _ _ => by simp, fun _ hk => by cases hk⟩
  have hspec := findLoop_spec h hl hd (n := a.nslots d) hstart (Nat.le_of_eq (Nat.zero_add _))
  rwa [Nat.zero_add] at hspec

end

/-! ## Writing entries -/

def entryXfer (k : Nat) (sd : Mem) : Xfer := { buf := sd, uio := mkKuio dirSize (k * dirSize) .write }

theorem write_entry (hd : DirOk a d) (hk : (k + 1) * dirSize ≤ sfsMaxbytes) :
    a.write d (entryXfer k m) dirSize = a.setSlot d k m := by
  have hmax : sfsMaxbytes = 73216 := by decide
  have hsize := hd.max
  have hpos : (entryXfer k m).uio.pos = k * dirSize := rfl
  have hoff : k * dirSize + dirSize = (k + 1) * dirSize := (Nat.succ_mul _ _).symm
  have hz : toOff (a.view d).size = (a.view d).size := if_pos (by omega)
  have hview : ((a.put d (entryXfer k m) dirSize).view d).size = (a.view d).size := by
    simp only [Vol.put, Vol.setBytes, Vol.setView, Function.update_self]
  unfold Vol.write Vol.grow
  rw [hpos, hoff, hview, hz]
  split
  · rename_i hlt
    rw [u32_of_lt (by omega)]
    simp only [Vol.put, Vol.setBytes, Vol.setSize, Vol.setSlot, Vol.setView, Function.update_self, Function.update_idem]
    rw [Nat.max_eq_right (by omega)]
    rfl
  · simp only [Vol.put, Vol.setBytes, Vol.setSlot, Vol.setView]
    rw [Nat.max_eq_left (by omega)]
    rfl

theorem write_nothing (hd : DirOk a d) (hk : k ≤ a.nslots d) : a.write d (entryXfer k m) 0 = a := by
  have hmax : sfsMaxbytes = 73216 := by decide
  have hsize := hd.max
  have hle : k * dirSize ≤ (a.view d).size := by
    rw [← hd.nslots_mul]
    exact Nat.mul_le_mul_right _ hk
  have hz : toOff (a.view d).size = (a.view d).size := if_pos (by omega)
  unfold Vol.write Vol.grow
  rw [Vol.put_zero, hz, if_neg]
  show ¬ ((a.view d).size : Int) < ((k * dirSize + 0 : Nat) : Int)
  omega

theorem writedir_spec (h : Rep c s a) (hl : a.Loaded d) (hd : DirOk a d) (hk : k ≤ a.nslots d) :
    wp (sfsWritedir d m k) (fun _ s' => Rep c s' (a.setSlot d k m) ∧ (k + 1) * dirSize ≤ sfsMaxbytes)
      (fun e s' => Rep c s' a ∧ (e = .enospc ∧ (k < a.nslots d → a.slotIno d k = sfsNoino) ∨
        e = .einval ∧ k = a.nslots d ∨ ¬ c ∧ e = .eio)) (fun _ => False) s := by
  have hmax : sfsMaxbytes = 73216 := by decide
  have hfits : (entryXfer k m).uio.Fits := ⟨⟨Nat.le_refl _, show dirSize < 2 ^ 32 by decide⟩, Int.natCast_nonneg _⟩
  have hpos : (entryXfer k m).uio.pos = k * dirSize := rfl
  have hres : (entryXfer k m).uio.uioResid = dirSize := rfl
  have hio := sfsIo_write_piece hl hfits h rfl (by rw [hpos]; exact slot_in_block k)
    (show 0 < dirSize by decide) (show dirSize < sfsBlocksize by decide)
  unfold sfsWritedir
  refine hio.bind (fun r s₁ hr => ?_) fun _ _ hf => hf.elim
  rw [hres] at hr
  cases hr with
  | all h₁ hle =>
    rw [hpos] at hle
    have hle' : (k + 1) * dirSize ≤ sfsMaxbytes := by rwa [Nat.succ_mul]
    rw [write_entry hd hle'] at h₁
    simp only [throwIf, wp_bind, wp_pure]
    rw [if_neg (show ¬ 0 < ((entryXfer k m).adv dirSize).uio.uioResid
      from Nat.not_lt.mpr (Nat.le_of_eq (Nat.sub_self _)))]
    exact ⟨h₁, hle'⟩
  | nothing h₁ he =>
    rw [write_nothing hd hk] at h₁
    rw [hpos] at he
    simp only [throwIf, wp_bind, wp_throw]
    refine ⟨h₁, ?_⟩
    rcases he with ⟨he, hz⟩ | ⟨he, hge⟩ | he
    · refine Or.inl ⟨he, fun _ => ?_⟩
      -- the slot is in a hole
      have hzero : ∀ y < dirSize, a.slot d k y = zeroBlock y := by
        intro y hy
        rw [Vol.slot, if_pos hy]
        refine hz _ ?_
        have := slot_in_block k
        rw [show dirSize = 64 from rfl, show sfsBlocksize = 512 from rfl] at *
        omega
      exact (entryIno_congr hzero).trans entryIno_zeroBlock
    · refine Or.inr (Or.inl ⟨he, ?_⟩)
      by_contra hne
      have hlt : k < a.nslots d := by omega
      have hslot := hd.slot_le hlt
      have hsize := hd.max
      rw [Nat.succ_mul] at hslot
      have : 0 < dirSize := by decide
      omega
    · exact Or.inr (Or.inr he)

def Vol.HasName (a : Vol) (d : Nat) (name : CString) : Prop :=
  ∃ k < a.nslots d, a.slotIno d k ≠ sfsNoino ∧ a.slotName d k = name.chars

structure FreeSlot (a : Vol) (d slot : Nat) (name : CString) : Prop where
  le : slot ≤ a.nslots d
  empty : slot < a.nslots d → a.slotIno d slot = sfsNoino
  fresh : ¬ a.HasName d name
  short : strlen name < sfsNamelen
  room : (slot + 1) * dirSize ≤ sfsMaxbytes

theorem dirLink_spec (h : Rep c s a) (hl : a.Loaded d) (hd : DirOk a d) :
    wp (sfsDirLink d name ino)
      (fun slot s' => FreeSlot a d slot name ∧ Rep c s' (a.setSlot d slot (dirEntry ino name)))
      (fun e s' => Rep c s' a ∧ (e = .eio → ¬ c)) (fun _ => False) s := by
  obtain ⟨own, h, ht⟩ := h
  unfold sfsDirLink
  refine (findname_spec h hl hd).bind (fun r s₁ => ?_) fun e s₁ => ?_
  · rintro ⟨hr, hfound⟩
    have h₁ := h.reads hr
    have hrep : Rep c s₁ a := ⟨own, h₁, ht⟩
    by_cases hf : r.found = none
    · rw [if_neg (not_not_intro hf)]
      by_cases hlen : sfsNamelen < strlen name + 1
      · rw [if_pos hlen]
        exact ⟨hrep, by simp⟩
      rw [if_neg hlen]
      have hfresh : ¬ a.HasName d name := by
        rintro ⟨k, hk, h0, hn⟩
        have := (hfound.found _ k).mpr ⟨hk, rfl, h0, hn⟩
        rw [hf] at this
        cases this
      -- the entry goes into an empty slot or behind the last one
      have hwrite : ∀ slot, slot ≤ a.nslots d → (slot < a.nslots d → a.slotIno d slot = sfsNoino) →
          wp (do
            sfsWritedir d (dirEntry ino name) slot
            pure slot)
            (fun slot s' => FreeSlot a d slot name ∧ Rep c s' (a.setSlot d slot (dirEntry ino name)))
            (fun e s' => Rep c s' a ∧ (e = .eio → ¬ c)) (fun _ => False) s₁ := by
        intro slot hle hempty
        refine (writedir_spec hrep hl hd hle).bind (fun _ s₂ hq => ?_) fun e s₂ hq => ?_
        · exact ⟨⟨hle, hempty, hfresh, by omega, hq.2⟩, hq.1⟩
        · refine ⟨hq.1, ?_⟩
          rcases hq.2 with ⟨rfl, -⟩ | ⟨rfl, -⟩ | ⟨hc, -⟩
          · simp
          · simp
          · exact fun _ => hc
      cases he : r.emptyslot with
      | some slot =>
        obtain ⟨hlt, h0⟩ := hfound.empty slot he
        exact hwrite slot (Nat.le_of_lt hlt) fun _ => h0
      | none =>
        dsimp only
        rw [wp_bind]
        refine dirNentries_spec h₁ hl hd ?_
        exact hwrite _ (Nat.le_refl _) fun hlt => absurd hlt (Nat.lt_irrefl _)
    · rw [if_pos hf]
      exact ⟨hrep, by simp⟩
  · rintro ⟨hr, hc, -⟩
    exact ⟨⟨own, h.reads hr, ht⟩, fun _ => hc⟩

end

end Os161
