import Os161.Lib.Tally
import Os161.NameSound

/-!
# Link counts

Every file has as many links as there are names for it, and the root one
more. A file without a name is in memory, and goes with the last reference to
it.
-/

namespace Os161

open Bytes Proc Tally

def sfsMaxslots : Nat := sfsMaxbytes / dirSize

def Vol.nlinks (a : Vol) (i : Nat) : Nat :=
  tally (fun ino => if ino = i then 1 else 0) fun k : Fin sfsMaxslots => a.slotIno sfsRootLocation k

def Vol.links (a : Vol) (i : Nat) : Nat := a.nlinks i + if i = sfsRootLocation then 1 else 0

structure VolOk (a : Vol) : Prop where
  counts : ∀ i v, a.counts i = some v → 0 < v.vnRefcount ∧ 0 ≤ v.vnOpencount ∧ v.vnOpencount ≤ v.vnRefcount
  dir : DirOk a sfsRootLocation
  slots : ∀ k, a.slotIno sfsRootLocation k ≠ sfsNoino → a.live (a.slotIno sfsRootLocation k)
  linkcount : ∀ i, a.live i → (a.view i).linkcount = a.links i
  orphans : ∀ i, a.live i → (a.view i).linkcount = 0 → a.Loaded i
  noino : ¬ a.live sfsNoino

section
variable {c : Prop} {s s' : Sfs} {a a' : Vol} {b d i j k ino slot : Nat} {name : CString} {m : Mem} {v : VnodeCounts}

theorem lt_sfsMaxslots (h : (k + 1) * dirSize ≤ sfsMaxbytes) : k < sfsMaxslots :=
  (Nat.le_div_iff_mul_le (by decide)).mpr h

theorem DirOk.lt_maxslots (hd : DirOk a sfsRootLocation) (hk : a.slotIno sfsRootLocation k ≠ sfsNoino) :
    k < sfsMaxslots :=
  lt_sfsMaxslots (hd.room (hd.lt_nslots hk))

theorem nlinks_congr (h : a'.slotIno sfsRootLocation = a.slotIno sfsRootLocation) : a'.nlinks i = a.nlinks i := by
  unfold Vol.nlinks
  rw [h]

theorem links_congr (h : a'.slotIno sfsRootLocation = a.slotIno sfsRootLocation) : a'.links i = a.links i := by
  unfold Vol.links
  rw [nlinks_congr h]

theorem nlinks_pos (hd : DirOk a sfsRootLocation) (hk : a.slotIno sfsRootLocation k ≠ sfsNoino) :
    0 < a.nlinks (a.slotIno sfsRootLocation k) := by
  refine tally_pos_iff.mpr ⟨⟨k, hd.lt_maxslots hk⟩, ?_⟩
  rw [if_pos rfl]
  exact Nat.one_pos

theorem nlinks_eq_zero (h : ∀ k, a.slotIno sfsRootLocation k ≠ i) : a.nlinks i = 0 :=
  tally_eq_zero fun k => if_neg (h k)

theorem nlinks_le : a.nlinks i ≤ sfsMaxslots := by
  unfold Vol.nlinks tally
  have hle := Finset.sum_le_card_nsmul Finset.univ
    (fun k : Fin sfsMaxslots => if a.slotIno sfsRootLocation k = i then 1 else 0) 1 fun k _ => by split <;> omega
  rw [Finset.card_univ, Fintype.card_fin] at hle
  exact hle.trans_eq (Nat.mul_one _)

theorem links_lt : a.links i + 1 < 2 ^ 16 := by
  have hle := @nlinks_le a i
  have hmax : sfsMaxslots = 1144 := by decide
  unfold Vol.links
  split <;> omega

theorem nlinks_setSlot (hk : k < sfsMaxslots) :
    (a.setSlot sfsRootLocation k m).nlinks i + (if a.slotIno sfsRootLocation k = i then 1 else 0) =
      a.nlinks i + if entryIno m = i then 1 else 0 := by
  have hstep := tally_step (g := fun ino => if ino = i then 1 else 0)
    (c := fun k : Fin sfsMaxslots => a.slotIno sfsRootLocation k)
    (d := fun j : Fin sfsMaxslots => (a.setSlot sfsRootLocation k m).slotIno sfsRootLocation j) ⟨k, hk⟩ fun j hj => by
      have hne : (j : Nat) ≠ k := fun e => hj (Fin.ext e)
      rw [slotIno_setSlot, if_neg hne]
  simp only [slotIno_setSlot, if_true] at hstep
  unfold Vol.nlinks
  simp only [slotIno_setSlot]
  exact hstep

/-! ## What keeps the link counts right -/

theorem VolOk.safe (h : VolOk a) : VolSafe a where
  counts := h.counts
  dir := h.dir
  slots k hk := by
    have hlive := h.slots k hk
    refine ⟨hlive, ?_⟩
    rw [h.linkcount _ hlive]
    exact Nat.lt_of_lt_of_le (nlinks_pos h.dir hk) (Nat.le_add_right _ _)

theorem VolOk.kept (h : VolOk a) (hk : a.Kept a') : VolOk a' where
  counts i v hv := by
    rcases hk.fresh i v hv with hv | rfl
    · exact h.counts i v hv
    · decide
  dir := hk.names.dir
  slots k hu := by
    rw [hk.names.ino k] at hu ⊢
    exact hk.live _ (h.slots k hu)
  linkcount i hi := by
    rw [links_congr (funext hk.names.ino)]
    rcases hk.born i hi with hi' | ⟨hi0, hr, h0, -⟩
    · by_cases hr : i = sfsRootLocation
      · rw [hr] at hi' ⊢
        rw [hk.names.linkcount, h.linkcount _ hi']
      · rw [hk.view i hi' hr, h.linkcount i hi']
    · by_cases hi' : a.live i
      · rw [hk.view i hi' hr, h.linkcount i hi']
      · rw [h0, Vol.links, nlinks_eq_zero, if_neg hr]
        rintro k rfl
        exact hi' (h.slots k hi0)
  orphans i hi h0 := by
    rcases hk.born i hi with hi' | ⟨-, -, -, hl⟩
    · by_cases hr : i = sfsRootLocation
      · rw [hr] at hi' h0 ⊢
        rw [hk.names.linkcount] at h0
        obtain ⟨v, hv⟩ := h.orphans _ hi' h0
        exact ⟨v, hk.counts _ v hv⟩
      · rw [hk.view i hi' hr] at h0
        obtain ⟨v, hv⟩ := h.orphans i hi' h0
        exact ⟨v, hk.counts i v hv⟩
    · exact hl
  noino hi := (hk.born _ hi).elim h.noino fun hnew => hnew.1 rfl

theorem slotIno_load : (a.load i).slotIno d = a.slotIno d := slotIno_congr (by rw [view_load])

theorem VolOk.load (h : VolOk a) : VolOk (a.load i) where
  counts j v hv := by
    by_cases hj : j = i
    · rw [hj] at hv
      cases hi : a.counts i with
      | some w =>
        rw [counts_load_some hi] at hv
        obtain rfl := Option.some_inj.mp hv
        have hw := h.counts i w hi
        have href : (vnodeIncref w).vnRefcount = w.vnRefcount + 1 := rfl
        have hopen : (vnodeIncref w).vnOpencount = w.vnOpencount := rfl
        omega
      | none =>
        rw [counts_load_none hi] at hv
        obtain rfl := Option.some_inj.mp hv
        decide
    · rw [counts_load_of_ne hj] at hv
      exact h.counts j v hv
  dir := h.dir.congr_view (by rw [view_load])
  slots k hk := by
    rw [slotIno_load] at hk ⊢
    rw [live_load]
    exact h.slots k hk
  linkcount j hj := by
    rw [live_load] at hj
    rw [view_load, links_congr slotIno_load, h.linkcount j hj]
  orphans j hj h0 := by
    rw [live_load] at hj
    rw [view_load] at h0
    exact (h.orphans j hj h0).load
  noino := by
    rw [live_load]
    exact h.noino

theorem VolOk.setView {w : FileView} (h : VolOk a) (hi : i ≠ sfsRootLocation)
    (hw : w.linkcount = (a.view i).linkcount) : VolOk (a.setView i w) := by
  have hroot : (a.setView i w).view sfsRootLocation = a.view sfsRootLocation := view_setView_of_ne hi.symm
  have hino : (a.setView i w).slotIno sfsRootLocation = a.slotIno sfsRootLocation :=
    slotIno_congr (congrArg FileView.bytes hroot)
  have hlink : ∀ j, ((a.setView i w).view j).linkcount = (a.view j).linkcount := by
    intro j
    by_cases hj : j = i
    · rw [hj, view_setView_self, hw]
    · rw [view_setView_of_ne hj]
  refine ⟨h.counts, h.dir.congr_view hroot, fun k hk => ?_, fun j hj => ?_, fun j hj h0 => ?_, h.noino⟩
  · rw [hino] at hk ⊢
    exact h.slots k hk
  · rw [hlink, links_congr hino, h.linkcount j hj]
  · rw [hlink] at h0
    exact h.orphans j hj h0

theorem VolOk.setCounts (h : VolOk a) (hv : 0 < v.vnRefcount ∧ 0 ≤ v.vnOpencount ∧ v.vnOpencount ≤ v.vnRefcount)
    (hl : a.Loaded i) : VolOk (a.setCounts i v) := by
  refine ⟨fun j w hw => ?_, h.dir.congr_view rfl, h.slots, h.linkcount, fun j hj h0 => ?_, h.noino⟩
  · by_cases hj : j = i
    · rw [hj, counts_setCounts_self hl] at hw
      obtain rfl := Option.some_inj.mp hw
      exact hv
    · rw [counts_setCounts_of_ne hj] at hw
      exact h.counts j w hw
  · by_cases hji : j = i
    · rw [hji]
      exact ⟨v, counts_setCounts_self hl⟩
    · obtain ⟨w, hw⟩ := h.orphans j hj h0
      exact ⟨w, (counts_setCounts_of_ne hji).trans hw⟩

theorem counts_unload_of_ne (hj : j ≠ i) : (a.unload i).counts j = a.counts j := by
  unfold Vol.counts Vol.unload
  rw [Table.get_remove_of_ne hj]

theorem counts_unload_self (hn : (a.table.map Prod.fst).Nodup) : (a.unload i).counts i = none := by
  unfold Vol.counts Vol.unload
  rw [Table.get_remove_self hn]
  rfl

theorem VolOk.unload (h : VolOk a) (hn : (a.table.map Prod.fst).Nodup) : VolOk (a.unload i) := by
  refine ⟨fun j v hv => ?_, h.dir.congr_view rfl, fun k hk => ⟨h.slots k hk, fun e h0 => ?_⟩,
    fun j hj => h.linkcount j hj.1, fun j hj h0 => ?_, fun hz => h.noino hz.1⟩
  · by_cases hj : j = i
    · rw [hj, counts_unload_self hn] at hv
      cases hv
    · rw [counts_unload_of_ne hj] at hv
      exact h.counts j v hv
  · have hpos := (h.safe.slots k hk).2
    rw [show a.slotIno sfsRootLocation k = i from e, h0] at hpos
    exact Nat.lt_irrefl 0 hpos
  · have hji : j ≠ i := fun e => hj.2 e (e ▸ h0)
    obtain ⟨v, hv⟩ := h.orphans j hj.1 h0
    exact ⟨v, (counts_unload_of_ne hji).trans hv⟩

theorem VolOk.drop (h : VolOk a) (hn : (a.table.map Prod.fst).Nodup) (hv : a.counts i = some v)
    (ho : v.vnOpencount < v.vnRefcount) : VolOk (a.drop i) := by
  unfold Vol.drop
  rw [hv]
  dsimp only
  split
  · have hw := h.counts i v hv
    refine h.setCounts ?_ ⟨v, hv⟩
    dsimp only
    omega
  · exact h.unload hn

theorem VolOk.make (h : VolOk a) (hnew : ¬ a.live b) (hb : ¬ a.Loaded b) (h0 : b ≠ sfsNoino)
    (hroot : b ≠ sfsRootLocation) (type : Nat) : VolOk (a.make b type) := by
  have hview : (a.make b type).view sfsRootLocation = a.view sfsRootLocation := view_make_of_ne hroot.symm
  have hino : (a.make b type).slotIno sfsRootLocation = a.slotIno sfsRootLocation :=
    slotIno_congr (congrArg FileView.bytes hview)
  have hne : ∀ j, a.live j → j ≠ b := fun j hj e => hnew (e ▸ hj)
  refine ⟨fun j v hv => ?_, h.dir.congr_view hview, fun k hk => ?_, fun j hj => ?_, fun j hj hz => ?_,
    fun hz => hz.elim h.noino h0.symm⟩
  · by_cases hj : j = b
    · rw [hj, counts_make_self type hb] at hv
      obtain rfl := Option.some_inj.mp hv
      decide
    · rw [counts_make_of_ne type hj] at hv
      exact h.counts j v hv
  · rw [hino] at hk ⊢
    exact Or.inl (h.slots k hk)
  · rw [links_congr hino]
    rcases hj with hj | rfl
    · rw [view_make_of_ne (hne j hj), h.linkcount j hj]
    · rw [view_make_self, Vol.links, nlinks_eq_zero, if_neg hroot]
      rintro k rfl
      exact hnew (h.slots k h0)
  · rcases hj with hj | rfl
    · rw [view_make_of_ne (hne j hj)] at hz
      obtain ⟨v, hv⟩ := h.orphans j hj hz
      exact ⟨v, (counts_make_of_ne type (hne j hj)).trans hv⟩
    · exact ⟨_, counts_make_self type hb⟩

theorem links_setSlot (hk : slot < sfsMaxslots) :
    (a.setSlot sfsRootLocation slot m).links i + (if a.slotIno sfsRootLocation slot = i then 1 else 0) =
      a.links i + if entryIno m = i then 1 else 0 := by
  have hstep := @nlinks_setSlot a i slot m hk
  unfold Vol.links
  omega

theorem incLink_eq {n : Nat} (h : n + 1 < 2 ^ 16) : incLink n = n + 1 := by
  unfold incLink
  omega

theorem VolOk.link (h : VolOk a) (hf : FreeSlot a sfsRootLocation slot name) (hlive : a.live ino)
    (hi32 : ino < 2 ^ 32) : VolOk (a.link slot ino name) := by
  have hlinks : ∀ j, j ≠ sfsNoino → (a.link slot ino name).links j = a.links j + if ino = j then 1 else 0 := by
    intro j hj
    have hstep := @links_setSlot a j slot (dirEntry ino name) (lt_sfsMaxslots hf.room)
    have hsame : (a.link slot ino name).links j = (a.setSlot sfsRootLocation slot (dirEntry ino name)).links j := by
      unfold Vol.link
      rw [links_congr slotIno_setLinkcount]
    rw [hf.unused h.dir, if_neg (Ne.symm hj), entryIno_dirEntry hi32] at hstep
    omega
  have hcount : ∀ j, a.live j →
      ((a.link slot ino name).view j).linkcount = (a.view j).linkcount + if ino = j then 1 else 0 := by
    intro j hj
    by_cases hji : j = ino
    · rw [hji, linkcount_link, h.linkcount ino hlive, if_pos rfl, incLink_eq links_lt]
    · unfold Vol.link
      rw [view_setLinkcount_of_ne hji, linkcount_setSlot, if_neg (Ne.symm hji), Nat.add_zero]
  refine ⟨h.counts, h.dir.link hf, fun k hk => ?_, fun j hj => ?_, fun j hj hz => ?_, h.noino⟩
  · rw [slotIno_link hi32] at hk ⊢
    split at hk
    · rename_i hks
      rwa [if_pos hks]
    · rename_i hks
      rw [if_neg hks]
      exact h.slots k hk
  · have hj0 : j ≠ sfsNoino := fun e => h.noino (e ▸ hj)
    rw [hcount j hj, hlinks j hj0, h.linkcount j hj]
  · rw [hcount j hj] at hz
    exact h.orphans j hj (Nat.eq_zero_of_add_eq_zero_right hz)

theorem slotIno_unlink : (a.unlink slot ino).slotIno sfsRootLocation k =
    if k = slot then sfsNoino else a.slotIno sfsRootLocation k := by
  unfold Vol.unlink
  rw [slotIno_setLinkcount, slotIno_setSlot, entryIno_zeroBlock]

theorem VolOk.unlink (h : VolOk a) (hu : a.slotIno sfsRootLocation k = ino) (h0 : ino ≠ sfsNoino) (hl : a.Loaded ino) :
    VolOk (a.unlink k ino) := by
  have hk : k < sfsMaxslots := h.dir.lt_maxslots (by rwa [hu])
  have hlive := h.slots k (by rwa [hu])
  rw [hu] at hlive
  have hlinks : ∀ j, j ≠ sfsNoino → (a.unlink k ino).links j + (if ino = j then 1 else 0) = a.links j := by
    intro j hj
    have hstep := @links_setSlot a j k zeroBlock hk
    have hsame : (a.unlink k ino).links j = (a.setSlot sfsRootLocation k zeroBlock).links j := by
      unfold Vol.unlink
      rw [links_congr slotIno_setLinkcount]
    rw [hu, entryIno_zeroBlock, if_neg (Ne.symm hj)] at hstep
    omega
  have hcount : ∀ j, ((a.unlink k ino).view j).linkcount = (a.view j).linkcount - if ino = j then 1 else 0 := by
    intro j
    by_cases hji : j = ino
    · unfold Vol.unlink
      rw [hji, linkcount_setLinkcount, if_pos rfl]
    · unfold Vol.unlink
      rw [view_setLinkcount_of_ne hji, linkcount_setSlot, if_neg (Ne.symm hji), Nat.sub_zero]
  refine ⟨h.counts, DirOk.setLinkcount (h.dir.clear (h.dir.room (h.dir.lt_nslots (by rwa [hu])))), fun l hl => ?_,
    fun j hj => ?_, fun j hj hz => ?_, h.noino⟩
  · rw [slotIno_unlink] at hl ⊢
    split at hl
    · exact absurd rfl hl
    · rename_i hlk
      rw [if_neg hlk]
      exact h.slots l hl
  · have hj0 : j ≠ sfsNoino := fun e => h.noino (e ▸ hj)
    have hstep := hlinks j hj0
    rw [hcount j, h.linkcount j hj]
    omega
  · by_cases hji : j = ino
    · rw [hji]
      exact hl
    · rw [hcount j, if_neg (Ne.symm hji), Nat.sub_zero] at hz
      exact h.orphans j hj hz

end

end Os161
