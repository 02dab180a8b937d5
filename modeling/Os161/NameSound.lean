import Os161.LoadSound
import Os161.SfsFs

/-!
# Operations on names

What `sfs_creat`, `sfs_link`, `sfs_remove` and `sfs_rename` do to a volume. An
operation that fails for another reason than the device undoes what it did.
-/

namespace Os161

open Bytes Proc

/-! ## References to a file -/

section
variable {a : Vol} {i j : Nat} {v : VnodeCounts}

theorem counts_setCounts_self (h : a.Loaded i) : (a.setCounts i v).counts i = some v := by
  obtain ⟨w, hw⟩ := h
  obtain ⟨p, hp, -⟩ := Option.map_eq_some_iff.mp hw
  have hget := @Table.get_modify_self _ Prod.fst a.table i (fun p => (p.1, v)) fun _ => rfl
  unfold Vol.counts Vol.setCounts
  rw [hget, hp]
  rfl

theorem counts_setCounts_of_ne (hj : j ≠ i) : (a.setCounts i v).counts j = a.counts j := by
  have hget := @Table.get_modify_of_ne _ Prod.fst a.table i j (fun p => (p.1, v)) (fun _ => rfl) hj
  unfold Vol.counts Vol.setCounts
  rw [hget]

theorem setCounts_setCounts {w : VnodeCounts} : (a.setCounts i v).setCounts i w = a.setCounts i w := by
  have hmod := @Table.modify_modify _ Prod.fst a.table i (fun p => (p.1, v)) (fun p => (p.1, w)) fun _ => rfl
  unfold Vol.setCounts
  dsimp only
  rw [hmod]
  rfl

theorem setCounts_counts (hn : (a.table.map Prod.fst).Nodup) (h : a.counts i = some v) : a.setCounts i v = a := by
  obtain ⟨p, hp, rfl⟩ := Option.map_eq_some_iff.mp h
  have hid : (fun q : Nat × VnodeCounts => (q.1, p.2)) p = id p := rfl
  unfold Vol.setCounts
  rw [Table.modify_congr hn hp hid, Table.modify_id]

theorem counts_append_self (h : a.counts i = none) :
    ({ a with table := a.table ++ [(i, v)] } : Vol).counts i = some v := by
  unfold Vol.counts at *
  have hnone := Option.map_eq_none_iff.mp h
  rw [show Table.get Prod.fst (a.table ++ [(i, v)]) i = some (i, v) from Table.get_append_of_none hnone]
  rfl

theorem counts_append_of_ne (hj : j ≠ i) : ({ a with table := a.table ++ [(i, v)] } : Vol).counts j = a.counts j := by
  unfold Vol.counts
  rw [show Table.get Prod.fst (a.table ++ [(i, v)]) j = Table.get Prod.fst a.table j from Table.get_append_of_ne hj]

theorem view_load : (a.load i).view = a.view := by
  unfold Vol.load
  split <;> rfl

theorem live_load : (a.load i).live = a.live := by
  unfold Vol.load
  split <;> rfl

theorem counts_load_of_ne (hj : j ≠ i) : (a.load i).counts j = a.counts j := by
  unfold Vol.load
  split
  · exact counts_setCounts_of_ne hj
  · exact counts_append_of_ne hj

theorem counts_load_some (h : a.counts i = some v) : (a.load i).counts i = some (vnodeIncref v) := by
  unfold Vol.load
  rw [h]
  exact counts_setCounts_self ⟨v, h⟩

theorem counts_load_none (h : a.counts i = none) : (a.load i).counts i = some vnodeInit := by
  unfold Vol.load
  rw [h]
  exact counts_append_self h

theorem loaded_load : (a.load i).Loaded i := by
  cases h : a.counts i with
  | some v => exact ⟨_, counts_load_some h⟩
  | none => exact ⟨_, counts_load_none h⟩

theorem Vol.Loaded.load (h : a.Loaded j) : (a.load i).Loaded j := by
  by_cases hj : j = i
  · rw [hj]
    exact loaded_load
  · obtain ⟨v, hv⟩ := h
    exact ⟨v, (counts_load_of_ne hj).trans hv⟩

theorem drop_load (hn : (a.table.map Prod.fst).Nodup) (hlink : (a.view i).linkcount ≠ 0)
    (hr : ∀ v, a.counts i = some v → 0 < v.vnRefcount) : (a.load i).drop i = a := by
  unfold Vol.drop
  cases h : a.counts i with
  | some v =>
    have hpos : 1 < (vnodeIncref v).vnRefcount := by
      have hpos := hr v h
      exact Int.lt_add_of_pos_left 1 hpos
    rw [counts_load_some h]
    dsimp only
    rw [if_pos hpos]
    unfold Vol.load
    rw [h]
    have hback : { vnodeIncref v with vnRefcount := (vnodeIncref v).vnRefcount - 1 } = v :=
      VnodeCounts.ext (Int.add_sub_cancel _ _) rfl
    dsimp only
    rw [setCounts_setCounts, hback, setCounts_counts hn h]
  | none =>
    rw [counts_load_none h]
    dsimp only
    rw [if_neg (by decide)]
    unfold Vol.load Vol.unload
    rw [h]
    have hself : Table.remove Prod.fst (a.table ++ [(i, vnodeInit)]) i = a.table :=
      Table.remove_append (Option.map_eq_none_iff.mp h)
    have hlive : (fun j => a.live j ∧ (j = i → (a.view i).linkcount ≠ 0)) = a.live :=
      funext fun j => propext (and_iff_left fun _ => hlink)
    dsimp only
    rw [hself, hlive]

end

/-! ## Slots of a directory -/

section
variable {a a' : Vol} {d i k ino slot : Nat} {name : CString} {m : Mem}

theorem slot_congr (h : (a'.view d).bytes = (a.view d).bytes) : a'.slot d = a.slot d := by
  unfold Vol.slot
  rw [h]

theorem slotIno_congr (h : (a'.view d).bytes = (a.view d).bytes) : a'.slotIno d = a.slotIno d := by
  unfold Vol.slotIno
  rw [slot_congr h]

theorem slotName_congr (h : (a'.view d).bytes = (a.view d).bytes) : a'.slotName d = a.slotName d := by
  unfold Vol.slotName
  rw [slot_congr h]

theorem nslots_congr (h : (a'.view d).size = (a.view d).size) : a'.nslots d = a.nslots d := by
  unfold Vol.nslots
  rw [h]

theorem DirOk.lt_nslots (hd : DirOk a d) (hk : a.slotIno d k ≠ sfsNoino) : k < a.nslots d := by
  by_contra hge
  exact hk (hd.beyond k (Nat.le_of_not_lt hge))

theorem DirOk.congr (hd : DirOk a d) (ht : (a'.view d).type = (a.view d).type) (hs : (a'.view d).size = (a.view d).size)
    (hb : (a'.view d).bytes = (a.view d).bytes) : DirOk a' d where
  type := by rw [ht]; exact hd.type
  size := by rw [hs]; exact hd.size
  max := by rw [hs]; exact hd.max
  names := by
    rw [nslots_congr hs, slotIno_congr hb, slotName_congr hb]
    exact hd.names
  beyond := by
    rw [nslots_congr hs, slotIno_congr hb]
    exact hd.beyond

theorem DirOk.congr_view (hd : DirOk a d) (h : a'.view d = a.view d) : DirOk a' d :=
  hd.congr (by rw [h]) (by rw [h]) (by rw [h])

theorem hasName_congr (h : a'.view d = a.view d) : a'.HasName d name ↔ a.HasName d name := by
  unfold Vol.HasName
  rw [nslots_congr (congrArg FileView.size h), slotIno_congr (congrArg FileView.bytes h),
    slotName_congr (congrArg FileView.bytes h)]

theorem FreeSlot.congr (hf : FreeSlot a d slot name) (h : a'.view d = a.view d) : FreeSlot a' d slot name where
  le := by rw [nslots_congr (congrArg FileView.size h)]; exact hf.le
  empty := by
    rw [nslots_congr (congrArg FileView.size h), slotIno_congr (congrArg FileView.bytes h)]
    exact hf.empty
  fresh := by rw [hasName_congr h]; exact hf.fresh
  short := hf.short
  room := hf.room

theorem FreeSlot.unused (hf : FreeSlot a d slot name) (hd : DirOk a d) : a.slotIno d slot = sfsNoino := by
  by_cases hlt : slot < a.nslots d
  · exact hf.empty hlt
  · exact hd.beyond slot (Nat.le_of_not_lt hlt)

theorem size_setSlot : ((a.setSlot d k m).view d).size = max (a.view d).size ((k + 1) * dirSize) := by
  unfold Vol.setSlot
  rw [view_setView_self]

theorem type_setSlot : ((a.setSlot d k m).view i).type = (a.view i).type := by
  unfold Vol.setSlot
  by_cases hi : i = d
  · rw [hi, view_setView_self]
  · rw [view_setView_of_ne hi]

theorem linkcount_setSlot : ((a.setSlot d k m).view i).linkcount = (a.view i).linkcount := by
  unfold Vol.setSlot
  by_cases hi : i = d
  · rw [hi, view_setView_self]
  · rw [view_setView_of_ne hi]

theorem view_setSlot_of_ne (hi : i ≠ d) : (a.setSlot d k m).view i = a.view i := view_setView_of_ne hi

theorem DirOk.setSlot (hd : DirOk a d) (hroom : (k + 1) * dirSize ≤ sfsMaxbytes)
    (hnames : entryIno m ≠ sfsNoino → ∀ l < a.nslots d, l ≠ k → a.slotIno d l ≠ sfsNoino →
      a.slotName d l ≠ entryName m) :
    DirOk (a.setSlot d k m) d where
  type := by
    rw [type_setSlot]
    exact hd.type
  size := by
    rw [size_setSlot, Nat.max_def]
    split
    · exact Nat.mul_mod_left _ _
    · exact hd.size
  max := by
    rw [size_setSlot]
    exact Nat.max_le.mpr ⟨hd.max, hroom⟩
  names := by
    intro x hx y hy hxi hyi hxy
    rw [slotIno_setSlot] at hxi hyi
    rw [slotName_setSlot, slotName_setSlot] at hxy
    by_cases hxk : x = k <;> by_cases hyk : y = k
    · rw [hxk, hyk]
    · rw [if_pos hxk] at hxi hxy
      rw [if_neg hyk] at hyi hxy
      exact absurd hxy.symm (hnames hxi y (hd.lt_nslots hyi) hyk hyi)
    · rw [if_neg hxk] at hxi hxy
      rw [if_pos hyk] at hyi hxy
      exact absurd hxy (hnames hyi x (hd.lt_nslots hxi) hxk hxi)
    · rw [if_neg hxk] at hxi hxy
      rw [if_neg hyk] at hyi hxy
      exact hd.names x (hd.lt_nslots hxi) y (hd.lt_nslots hyi) hxi hyi hxy
  beyond := by
    intro l hl
    rw [nslots_setSlot hd] at hl
    rw [slotIno_setSlot, if_neg (by omega)]
    exact hd.beyond l (by omega)

theorem DirOk.clear (hd : DirOk a d) (hroom : (k + 1) * dirSize ≤ sfsMaxbytes) : DirOk (a.setSlot d k zeroBlock) d :=
  hd.setSlot hroom fun hu => absurd entryIno_zeroBlock hu

theorem view_setLinkcount {n : Nat} : ((a.setLinkcount i n).view d).type = (a.view d).type ∧
    ((a.setLinkcount i n).view d).size = (a.view d).size ∧ ((a.setLinkcount i n).view d).bytes = (a.view d).bytes := by
  unfold Vol.setLinkcount
  by_cases hi : d = i
  · rw [hi, view_setView_self]
    exact ⟨rfl, rfl, rfl⟩
  · rw [view_setView_of_ne hi]
    exact ⟨rfl, rfl, rfl⟩

theorem linkcount_setLinkcount {n : Nat} : ((a.setLinkcount i n).view i).linkcount = n := by
  unfold Vol.setLinkcount
  rw [view_setView_self]

theorem view_setLinkcount_of_ne {n : Nat} (hd : d ≠ i) : (a.setLinkcount i n).view d = a.view d := view_setView_of_ne hd

theorem DirOk.setLinkcount {n : Nat} (hd : DirOk a d) : DirOk (a.setLinkcount i n) d :=
  hd.congr view_setLinkcount.1 view_setLinkcount.2.1 view_setLinkcount.2.2

theorem slotIno_setLinkcount {n : Nat} : (a.setLinkcount i n).slotIno d = a.slotIno d :=
    slotIno_congr view_setLinkcount.2.2

theorem slotName_setLinkcount {n : Nat} : (a.setLinkcount i n).slotName d = a.slotName d :=
  slotName_congr view_setLinkcount.2.2

def Vol.link (a : Vol) (slot ino : Nat) (name : CString) : Vol :=
  (a.setSlot sfsRootLocation slot (dirEntry ino name)).setLinkcount ino (incLink (a.view ino).linkcount)

theorem linkcount_link : ((a.link slot ino name).view ino).linkcount = incLink (a.view ino).linkcount :=
  linkcount_setLinkcount

theorem slotIno_link (hino : ino < 2 ^ 32) :
    (a.link slot ino name).slotIno sfsRootLocation k = if k = slot then ino else a.slotIno sfsRootLocation k := by
  unfold Vol.link
  rw [slotIno_setLinkcount, slotIno_setSlot, entryIno_dirEntry hino]

theorem DirOk.link (hd : DirOk a sfsRootLocation) (hf : FreeSlot a sfsRootLocation slot name) :
    DirOk (a.link slot ino name) sfsRootLocation := by
  refine DirOk.setLinkcount (hd.setSlot hf.room fun _ l hl _ hu hn => ?_)
  rw [entryName_dirEntry hf.short] at hn
  exact hf.fresh ⟨l, hl, hu, hn⟩

def Vol.unlink (a : Vol) (k ino : Nat) : Vol :=
  (a.setSlot sfsRootLocation k zeroBlock).setLinkcount ino ((a.view ino).linkcount - 1)

theorem DirOk.room (hd : DirOk a d) (hk : k < a.nslots d) : (k + 1) * dirSize ≤ sfsMaxbytes :=
  Nat.le_trans (hd.slot_le hk) hd.max

theorem load_setView {w : FileView} : (a.setView d w).load i = (a.load i).setView d w := by
  unfold Vol.load
  rw [show (a.setView d w).counts i = a.counts i from rfl]
  cases a.counts i <;> rfl

theorem load_setSlot : (a.setSlot d k m).load i = (a.load i).setSlot d k m := by
  unfold Vol.setSlot
  rw [load_setView, view_load]

theorem load_setLinkcount {n : Nat} : (a.setLinkcount ino n).load i = (a.load i).setLinkcount ino n := by
  unfold Vol.setLinkcount
  rw [load_setView, view_load]

theorem load_link : (a.link slot ino name).load i = (a.load i).link slot ino name := by
  unfold Vol.link
  rw [load_setLinkcount, load_setSlot, view_load]

end

/-! ## Volumes that can be worked on -/

structure VolSafe (a : Vol) : Prop where
  counts : ∀ i v, a.counts i = some v → 0 < v.vnRefcount ∧ 0 ≤ v.vnOpencount ∧ v.vnOpencount ≤ v.vnRefcount
  dir : DirOk a sfsRootLocation
  slots : ∀ k, a.slotIno sfsRootLocation k ≠ sfsNoino →
    a.live (a.slotIno sfsRootLocation k) ∧ 0 < (a.view (a.slotIno sfsRootLocation k)).linkcount

def Vol.Entry (a : Vol) (d k ino : Nat) (name : CString) : Prop :=
  k < a.nslots d ∧ a.slotIno d k = ino ∧ ino ≠ sfsNoino ∧ a.slotName d k = name.chars

theorem VolSafe.entry {a : Vol} {k i : Nat} {name : CString} (h : VolSafe a) (he : a.Entry sfsRootLocation k i name) :
    a.live i ∧ 0 < (a.view i).linkcount := by
  obtain ⟨-, rfl, h0, -⟩ := he
  exact h.slots k h0

structure SameNames (d : Nat) (a a' : Vol) : Prop where
  dir : DirOk a' d
  linkcount : (a'.view d).linkcount = (a.view d).linkcount
  ino : ∀ k, a'.slotIno d k = a.slotIno d k
  name : ∀ k, a.slotIno d k ≠ sfsNoino → a'.slotName d k = a.slotName d k

structure Vol.Kept (a a' : Vol) : Prop where
  live : ∀ i, a.live i → a'.live i
  born : ∀ i, a'.live i → a.live i ∨ i ≠ sfsNoino ∧ i ≠ sfsRootLocation ∧ (a'.view i).linkcount = 0 ∧ a'.Loaded i
  view : ∀ i, a.live i → i ≠ sfsRootLocation → a'.view i = a.view i
  names : SameNames sfsRootLocation a a'
  counts : ∀ i v, a.counts i = some v → a'.counts i = some v
  fresh : ∀ i v, a'.counts i = some v → a.counts i = some v ∨ v = vnodeInit

theorem Vol.Kept.trans {a a' a'' : Vol} (h : a.Kept a') (h' : a'.Kept a'') : a.Kept a'' where
  live i hi := h'.live i (h.live i hi)
  born i hi := by
    rcases h'.born i hi with hi' | hnew
    · rcases h.born i hi' with hi'' | ⟨hi0, hr, h0, v, hv⟩
      · exact Or.inl hi''
      · exact Or.inr ⟨hi0, hr, by rw [h'.view i hi' hr, h0], v, h'.counts i v hv⟩
    · exact Or.inr hnew
  view i hi hr := (h'.view i (h.live i hi) hr).trans (h.view i hi hr)
  names := {
    dir := h'.names.dir
    linkcount := h'.names.linkcount.trans h.names.linkcount
    ino := fun k => (h'.names.ino k).trans (h.names.ino k)
    name := fun k hk => (h'.names.name k (by rwa [h.names.ino k])).trans (h.names.name k hk) }
  counts i v hv := h'.counts i v (h.counts i v hv)
  fresh i v hv := (h'.fresh i v hv).elim (h.fresh i v) Or.inr

structure Vol.Unchanged (a a' : Vol) : Prop where
  live : ∀ i, a.live i → a'.live i
  born : ∀ i, a'.live i → a.live i ∨ i ≠ sfsNoino ∧ i ≠ sfsRootLocation ∧ (a'.view i).linkcount = 0 ∧ a'.Loaded i
  view : ∀ i, a.live i → a'.view i = a.view i
  counts : ∀ i v, a.counts i = some v → a'.counts i = some v
  fresh : ∀ i v, a'.counts i = some v → a.counts i = some v ∨ v = vnodeInit

def Undone (c : Prop) (a : Vol) (s : Sfs) : Prop := ∃ a', a.Unchanged a' ∧ (c → a' = a) ∧ Rep c s a'

def NameFails (c : Prop) (a : Vol) (e : Errno) (s : Sfs) : Prop :=
  ∃ a', a.Kept a' ∧ (e ≠ .eio → a'.view sfsRootLocation = a.view sfsRootLocation) ∧ (c → a' = a) ∧ Rep c s a'

section
variable {c : Prop} {own : Nat → BlockOwner} {s s' : Sfs} {a a' a₁ : Vol} {b d i j k ino slot : Nat} {name : CString}
  {m : Mem} {e : Errno} {E : Errno → Sfs → Prop} {K : FsPanic → Prop}

theorem Vol.Unchanged.refl (a : Vol) : a.Unchanged a :=
  ⟨fun _ h => h, fun _ h => Or.inl h, fun _ _ => rfl, fun _ _ h => h, fun _ _ h => Or.inl h⟩

theorem Vol.Unchanged.kept (h : a.Unchanged a') (hd : DirOk a sfsRootLocation) (hr : a.live sfsRootLocation) :
    a.Kept a' :=
  have hview := h.view _ hr
  ⟨h.live, h.born, fun i hi _ => h.view i hi,
    ⟨hd.congr_view hview, by rw [hview], fun k => by rw [slotIno_congr (congrArg FileView.bytes hview)],
      fun k _ => by rw [slotName_congr (congrArg FileView.bytes hview)]⟩, h.counts, h.fresh⟩

theorem Rep.undone (h : Rep c s a) : Undone c a s := ⟨a, .refl a, fun _ => rfl, h⟩

theorem Undone.fails (h : Undone c a s) (hd : DirOk a sfsRootLocation) (hr : a.live sfsRootLocation) :
    NameFails c a e s := by
  obtain ⟨a', hsame, hc, h⟩ := h
  exact ⟨a', hsame.kept hd hr, fun _ => hsame.view _ hr, hc, h⟩

theorem Vol.Kept.fails (hk : a.Kept a₁) (hr : a.live sfsRootLocation) (hc : ¬ c) (he : e = .eio) (h : Undone c a₁ s) :
    NameFails c a e s := by
  obtain ⟨a', hsame, -, h⟩ := h
  exact ⟨a', hk.trans (hsame.kept hk.names.dir (hk.live _ hr)), fun hn => absurd he hn, fun h => absurd h hc, h⟩

theorem Rep.nodup (h : Rep c s a) : (a.table.map Prod.fst).Nodup := by
  obtain ⟨own, h, -⟩ := h
  rw [← h.table, Sfs.table, List.map_map]
  exact h.owned.nodup

theorem Rep.congr (h : Rep c s a) (hlive : ∀ j, a'.live j ↔ a.live j) (hview : ∀ j, a.live j → a'.view j = a.view j)
    (htable : a'.table = a.table) : Rep c s a' := by
  obtain ⟨own, h, ht⟩ := h
  exact ⟨own, h.congr hlive hview htable, ht⟩

theorem Rep.live_of_loaded (h : Rep c s a) (hl : a.Loaded i) : a.live i := by
  obtain ⟨own, h, -⟩ := h
  exact h.live_of_loaded hl

theorem Rep.ne_noino (h : Rep c s a) (hl : a.live i) : i ≠ sfsNoino := by
  obtain ⟨own, h, -⟩ := h
  have hi := (h.live i).mp hl
  exact h.owned.ne_zero (by rw [hi]; simp)

theorem Rep.lt_of_live (h : Rep c s a) (hl : a.live i) : i < 2 ^ 32 := by
  obtain ⟨own, h, -⟩ := h
  have hi := (h.live i).mp hl
  exact h.owned.lt_word (by rw [hi]; simp)

/-! ## Looking up a name -/

theorem lookonce_spec (h : Rep c s a) (hl : a.Loaded sfsRootLocation) (hok : VolSafe a) :
    wp (sfsLookonce sfsRootLocation name)
      (fun r s' => a.Entry sfsRootLocation r.2 r.1 name ∧ Rep c s' (a.load r.1))
      (fun e s' => (e = .enoent ∧ ¬ a.HasName sfsRootLocation name ∨ ¬ c ∧ (e = .eio ∨ e = .enomem)) ∧ Rep c s' a)
      (fun _ => False) s := by
  obtain ⟨own, h, ht⟩ := h
  unfold sfsLookonce
  refine (findname_spec h hl hok.dir).bind (fun r s₁ => ?_) fun e s₁ => ?_
  · rintro ⟨hr, hfound⟩
    have h₁ : Rep c s₁ a := ⟨own, h.reads hr, ht⟩
    cases hf : r.found with
    | none =>
      refine ⟨Or.inl ⟨rfl, ?_⟩, h₁⟩
      rintro ⟨k, hk, h0, hn⟩
      have := (hfound.found _ k).mpr ⟨hk, rfl, h0, hn⟩
      rw [hf] at this
      cases this
    | some p =>
      obtain ⟨i, k⟩ := p
      have hentry : a.Entry sfsRootLocation k i name := (hfound.found i k).mp hf
      have hlive := hok.entry hentry
      dsimp only
      refine (loadvnode_spec h₁ hlive.1).bind (fun _ s₂ h₂ => ?_) fun e s₂ he => ⟨Or.inr ⟨he.2.1, he.2.2.1⟩, he.2.2.2⟩
      obtain ⟨sv, hv⟩ := h₂.vnode loaded_load
      have hlink : sv.svI.sfiLinkcount = (a.view i).linkcount := by
        obtain ⟨own₂, h₂, -⟩ := h₂
        rw [h₂.linkcount hv, view_load]
      rw [wp_bind, wp_getSv hv, if_neg (by rw [hlink]; omega)]
      exact ⟨hentry, h₂⟩
  · rintro ⟨hr, hc, he⟩
    exact ⟨Or.inr ⟨hc, Or.inl he⟩, own, h.reads hr, ht⟩

theorem counts_load (hr : ∀ v, a.counts i = some v → 0 < v.vnRefcount) : ∃ v, (a.load i).counts i = some v ∧
    0 < v.vnRefcount ∧ (v.vnRefcount = 1 → v.vnOpencount = 0 ∧ a.counts i = none) := by
  cases h : a.counts i with
  | some v =>
    have hpos := hr v h
    have hval : (vnodeIncref v).vnRefcount = v.vnRefcount + 1 := rfl
    exact ⟨_, counts_load_some h, by omega, fun h1 => by omega⟩
  | none => exact ⟨_, counts_load_none h, Int.one_pos, fun _ => ⟨rfl, rfl⟩⟩

theorem decref_load (h : Rep c s (a.load i)) (hr : ∀ v, a.counts i = some v → 0 < v.vnRefcount)
    (hlink : (a.view i).linkcount ≠ 0) (hn : (a.table.map Prod.fst).Nodup) :
    wp (decref i) (fun _ s' => Undone c a s') E (fun _ => False) s := by
  obtain ⟨v, hv, hpos, hone⟩ := counts_load hr
  refine (decref_spec h hv hpos (fun h1 => (hone h1).1) fun _ h0 => absurd h0 ?_).imp fun _ s' hq => ?_
  · rwa [view_load]
  · rcases hq with hq | ⟨-, -, h0, -⟩
    · rw [drop_load hn hlink hr] at hq
      exact hq.undone
    · rw [view_load] at h0
      exact absurd h0 hlink

theorem RepAt.setLinkcount {f : SfsVnode → SfsVnode} {sv : SfsVnode} {n : Nat} (h : RepAt c own s a)
    (hv : s.vnode i = some sv) (hf : ∀ x, (f x).svIno = x.svIno ∧ (f x).svV = x.svV)
    (hi : (f sv).svI = { sv.svI with sfiLinkcount := n }) (hn : n < 2 ^ 16) (hdirty : (f sv).svDirty = true) :
    RepAt c own (s.modifySv i f) (a.setLinkcount i n) := by
  have hfits := h.owned.inodeFits (h.owned.vnode_own hv)
  rw [vnode_inode hv] at hfits
  have hrep := h.modifyInode hv hf (by rw [hi]) (by rw [hi]) (by rw [hi]; exact hfits.size) (by rw [hi])
    (by rw [hi]; exact hn) fun hclean => absurd (hdirty.symm.trans hclean) (by simp)
  have hsize : sv.svI.sfiSize = (a.view i).size := by
    rw [← vnode_inode hv]
    exact h.inode_size (h.loaded hv)
  rw [hi] at hrep
  dsimp only at hrep
  rw [hsize] at hrep
  exact hrep

theorem Rep.modifyLinkcount {Q : Unit → Sfs → Prop} {f : Nat → Nat} (h : Rep c s a) (hl : a.Loaded i)
    (hf : f (a.view i).linkcount < 2 ^ 16)
    (hQ : ∀ s', Rep c s' (a.setLinkcount i (f (a.view i).linkcount)) →
      (∃ sv, s'.vnode i = some sv ∧ sv.svDirty = true) → Q () s') :
    wp (Os161.modifyLinkcount i f) Q E K s := by
  obtain ⟨own, h, ht⟩ := h
  obtain ⟨sv, hv⟩ := h.vnode hl
  have hlink := h.linkcount hv
  unfold Os161.modifyLinkcount
  rw [wp_modifySv]
  exact hQ _ ⟨own, h.setLinkcount hv (fun _ => ⟨rfl, rfl⟩) (by rw [hlink]) hf rfl, ht⟩
    ⟨_, vnode_modifySv (fun _ => rfl) hv, rfl⟩

/-! ## Creating and linking -/

theorem counts_make_self (type : Nat) (hb : ¬ a.Loaded b) : (a.make b type).counts b = some vnodeInit := by
  have hnone : a.counts b = none := Option.eq_none_iff_forall_ne_some.mpr fun v hv => hb ⟨v, hv⟩
  exact counts_append_self hnone

theorem counts_make_of_ne (type : Nat) (hj : j ≠ b) : (a.make b type).counts j = a.counts j := counts_append_of_ne hj

theorem decref_make {type : Nat} (h : Rep c s (a.make b type)) (hnew : ¬ a.live b) (hb : ¬ a.Loaded b)
    (hroot : b ≠ sfsRootLocation) : wp (decref b) (fun _ s' => Undone c a s') E (fun _ => False) s := by
  have hcounts := counts_make_self type hb
  have hview : ((a.make b type).view b).linkcount = 0 := by rw [view_make_self]
  have hne : ∀ j, a.live j → j ≠ b := fun j hj e => hnew (e ▸ hj)
  refine (decref_spec h hcounts Int.one_pos (fun _ => rfl) fun _ _ => hroot).imp fun _ s' hq => ?_
  rcases hq with hq | ⟨-, hc, -, w, -, hw, hq⟩
  · unfold Vol.drop at hq
    rw [hcounts] at hq
    dsimp only at hq
    rw [if_neg (by decide)] at hq
    refine (hq.congr (fun j => ?_) (fun j hj => ?_) ?_).undone
    · refine ⟨fun hj => ⟨Or.inl hj, fun e => absurd e (hne j hj)⟩, fun hj => ?_⟩
      exact hj.1.resolve_right fun e => hj.2 e hview
    · exact (view_make_of_ne fun e => hj.2 e hview).symm
    · have hnone : a.counts b = none := Option.eq_none_iff_forall_ne_some.mpr fun v hv => hb ⟨v, hv⟩
      have hgone : Table.remove Prod.fst (a.table ++ [(b, vnodeInit)]) b = a.table :=
        Table.remove_append (Option.map_eq_none_iff.mp hnone)
      exact hgone.symm
  · refine ⟨(a.make b type).setView b w, ⟨fun j hj => Or.inl hj, fun j hj => hj.imp_right ?_, fun j hj => ?_,
      fun j v hv => ?_, fun j v hv => ?_⟩, fun h => absurd h hc, hq⟩
    · rintro rfl
      exact ⟨h.ne_noino (Or.inr rfl), hroot, by rw [view_setView_self, hw], _, hcounts⟩
    · rw [view_setView_of_ne (hne j hj), view_make_of_ne (hne j hj)]
    · have hjb : j ≠ b := fun e => hb ⟨v, by rwa [e] at hv⟩
      exact (counts_make_of_ne type hjb).trans hv
    · have hv' : (a.make b type).counts j = some v := hv
      by_cases hjb : j = b
      · rw [hjb, hcounts] at hv'
        exact Or.inr (Option.some_inj.mp hv').symm
      · rw [counts_make_of_ne type hjb] at hv'
        exact Or.inl hv'

theorem incLink_lt (n : Nat) : incLink n < 2 ^ 16 := Nat.mod_lt _ (by decide)

theorem Rep.linkName {Q : Unit → Sfs → Prop} (h : Rep c s (a.setSlot sfsRootLocation slot (dirEntry ino name)))
    (hl : a.Loaded ino)
    (hQ : ∀ s', Rep c s' (a.link slot ino name) → (∃ sv, s'.vnode ino = some sv ∧ sv.svDirty = true) → Q () s') :
    wp (Os161.modifyLinkcount ino incLink) Q E K s := by
  refine h.modifyLinkcount hl (incLink_lt _) fun s' h' hdirty => hQ s' ?_ hdirty
  rwa [linkcount_setSlot] at h'

theorem creatNew_spec (h : Rep c s a) (hl : a.Loaded sfsRootLocation) (hok : VolSafe a) :
    wp (sfsCreatNew sfsRootLocation name)
      (fun b s' => ∃ slot, ¬ a.live b ∧ ¬ a.Loaded b ∧ b ≠ sfsNoino ∧ b < 2 ^ 32 ∧
        FreeSlot a sfsRootLocation slot name ∧ Rep c s' ((a.make b sfsTypeFile).link slot b name))
      (NameFails c a) (fun _ => False) s := by
  have hr := h.live_of_loaded hl
  unfold sfsCreatNew
  refine (makeobj_spec h).bind (fun b s₁ => ?_) fun e s₁ he => he.2.undone.fails hok.dir hr
  rintro ⟨hnew, hb, h0, hlt, h₁⟩
  have hroot : sfsRootLocation ≠ b := fun e => hb (e ▸ hl)
  have hview : (a.make b sfsTypeFile).view sfsRootLocation = a.view sfsRootLocation := view_make_of_ne hroot
  have hl₁ : (a.make b sfsTypeFile).Loaded sfsRootLocation := by
    obtain ⟨v, hv⟩ := hl
    exact ⟨v, (counts_make_of_ne _ hroot).trans hv⟩
  rw [wp_bind, wp_attempt]
  refine (dirLink_spec h₁ hl₁ (hok.dir.congr_view hview)).mono (fun slot s₂ => ?_) (fun e s₂ he => ?_) fun _ hk => hk
  · rintro ⟨hslot, h₂⟩
    dsimp only
    rw [wp_bind]
    refine h₂.linkName ⟨_, counts_make_self _ hb⟩ fun s₃ h₃ _ => ?_
    exact ⟨slot, hnew, hb, h0, hlt, hslot.congr hview.symm, h₃⟩
  · dsimp only
    rw [wp_bind]
    exact (decref_make he.1 hnew hb hroot.symm).imp fun _ s₃ h₃ => h₃.fails hok.dir hr

theorem creat_spec {excl : Bool} (h : Rep c s a) (hl : a.Loaded sfsRootLocation) (hok : VolSafe a) :
    wp (sfsCreat sfsRootLocation name excl)
      (fun b s' => (∃ k, a.Entry sfsRootLocation k b name ∧ Rep c s' (a.load b)) ∨
        ∃ slot, ¬ a.live b ∧ ¬ a.Loaded b ∧ b ≠ sfsNoino ∧ b < 2 ^ 32 ∧ FreeSlot a sfsRootLocation slot name ∧
          Rep c s' ((a.make b sfsTypeFile).link slot b name))
      (NameFails c a) (fun _ => False) s := by
  have hr := h.live_of_loaded hl
  obtain ⟨own, h, ht⟩ := h
  have hreads : ∀ s', Reads c s s' → Rep c s' a := fun s' hr => ⟨own, h.reads hr, ht⟩
  unfold sfsCreat
  refine (findname_spec h hl hok.dir).bind (fun r s₁ => ?_) fun e s₁ he => (hreads s₁ he.1).undone.fails hok.dir hr
  rintro ⟨hr₁, hfound⟩
  have h₁ := hreads s₁ hr₁
  cases hf : r.found with
  | none =>
    dsimp only
    exact (creatNew_spec h₁ hl hok).imp fun _ _ hq => Or.inr hq
  | some p =>
    obtain ⟨i, k⟩ := p
    have hentry : a.Entry sfsRootLocation k i name := (hfound.found i k).mp hf
    have hlive := hok.entry hentry
    dsimp only
    split
    · exact h₁.undone.fails hok.dir hr
    · refine (loadvnode_spec h₁ hlive.1).bind (fun _ s₂ h₂ => ?_) fun e s₂ he => he.2.2.2.undone.fails hok.dir hr
      exact Or.inl ⟨k, hentry, h₂⟩

theorem link_spec (h : Rep c s a) (hl : a.Loaded sfsRootLocation) (hok : VolSafe a) (hf : a.Loaded ino) :
    wp (sfsLink sfsRootLocation name ino)
      (fun _ s' => ∃ slot, FreeSlot a sfsRootLocation slot name ∧ Rep c s' (a.link slot ino name))
      (NameFails c a) (fun _ => False) s := by
  have hr := h.live_of_loaded hl
  unfold sfsLink
  refine (dirLink_spec h hl hok.dir).bind (fun slot s₁ => ?_) fun e s₁ he => ?_
  · rintro ⟨hslot, h₁⟩
    exact h₁.linkName hf fun s₂ h₂ _ => ⟨slot, hslot, h₂⟩
  · exact he.1.undone.fails hok.dir hr

/-! ## Removing and renaming -/

theorem unlink_spec (h : Rep c s a) (hl : a.Loaded d) (hd : DirOk a d) (hu : a.slotIno d k ≠ sfsNoino) :
    wp (sfsDirUnlink d k) (fun _ s' => Rep c s' (a.setSlot d k zeroBlock))
      (fun e s' => ¬ c ∧ e = .eio ∧ Rep c s' a) (fun _ => False) s := by
  have hk := hd.lt_nslots hu
  unfold sfsDirUnlink
  refine (writedir_spec h hl hd (Nat.le_of_lt hk)).mono (fun _ s' hq => hq.1) (fun e s' he => ?_) fun _ hk => hk
  obtain ⟨h', ⟨-, hempty⟩ | ⟨-, hlast⟩ | ⟨hc, he⟩⟩ := he
  · exact absurd (hempty hk) hu
  · exact absurd hk (hlast ▸ Nat.lt_irrefl _)
  · exact ⟨hc, he, h'⟩

theorem Rep.linkcount_lt (h : Rep c s a) (hl : a.Loaded i) : (a.view i).linkcount < 2 ^ 16 := by
  obtain ⟨own, h, -⟩ := h
  have hlive := h.live_of_loaded hl
  rw [← h.view i hlive]
  exact h.owned.linkcount i ((h.live i).mp hlive)

theorem Rep.unlinked {Q : Unit → Sfs → Prop} {v : VnodeCounts} (h : Rep c s (a.setSlot sfsRootLocation k zeroBlock))
    (hv : a.counts ino = some v) (hpos : 0 < v.vnRefcount)
    (hone : v.vnRefcount = 1 → v.vnOpencount = 0 ∧ ino ≠ sfsRootLocation)
    (hlink : (a.view ino).linkcount = 0 → K (.assertionFailed .linkcountPositive))
    (hQ : ∀ s', Rep c s' ((a.unlink k ino).drop ino) ∨ v.vnRefcount = 1 ∧ Stuck c (a.unlink k ino) ino s' → Q () s') :
    wp (do
      let sv ← getSv ino
      assertFs (0 < sv.svI.sfiLinkcount) .linkcountPositive
      Os161.modifyLinkcount ino (· - 1)
      decref ino) Q E K s := by
  have hl : (a.setSlot sfsRootLocation k zeroBlock).Loaded ino := ⟨v, hv⟩
  obtain ⟨sv, hsv⟩ := h.vnode hl
  have hcount : sv.svI.sfiLinkcount = (a.view ino).linkcount := by
    obtain ⟨own, h, -⟩ := h
    rw [h.linkcount hsv, linkcount_setSlot]
  have hlt := h.linkcount_lt hl
  rw [wp_bind, wp_getSv hsv, wp_bind]
  by_cases h0 : 0 < sv.svI.sfiLinkcount
  · rw [wp_assertFs h0, wp_bind]
    refine h.modifyLinkcount hl (Nat.lt_of_le_of_lt (Nat.sub_le _ _) hlt) fun s₁ h₁ _ => ?_
    rw [linkcount_setSlot] at h₁
    have hv₁ : (a.unlink k ino).counts ino = some v := hv
    exact (decref_spec h₁ hv₁ hpos (fun h1 => (hone h1).1) fun h1 _ => (hone h1).2).mono (fun _ s₂ h₂ => hQ s₂ h₂)
      (fun _ _ he => he) fun _ hk => hk.elim
  · unfold assertFs Proc.require
    rw [if_neg h0]
    exact hlink (by omega)

theorem ne_root_of_unloaded (hl : a.Loaded sfsRootLocation) (hnone : a.counts i = none) : i ≠ sfsRootLocation := by
  rintro rfl
  obtain ⟨w, hw⟩ := hl
  rw [hnone] at hw
  cases hw

def Removed (c : Prop) (a : Vol) (k i : Nat) (s : Sfs) : Prop :=
  Rep c s ((a.load i |>.unlink k i).drop i) ∨ a.counts i = none ∧ Stuck c (a.load i |>.unlink k i) i s

theorem remove_spec (h : Rep c s a) (hl : a.Loaded sfsRootLocation) (hok : VolSafe a) :
    wp (sfsRemove sfsRootLocation name) (fun _ s' => ∃ k i, a.Entry sfsRootLocation k i name ∧ Removed c a k i s')
      (NameFails c a) (fun _ => False) s := by
  have hr := h.live_of_loaded hl
  unfold sfsRemove
  refine (lookonce_spec h hl hok).bind (fun r s₁ => ?_) fun e s₁ he => he.2.undone.fails hok.dir hr
  obtain ⟨i, k⟩ := r
  rintro ⟨(hentry : a.Entry sfsRootLocation k i name), (h₁ : Rep c s₁ (a.load i))⟩
  have ⟨hk, hino, h0, _⟩ := hentry
  have hpos := fun v hv => (hok.counts i v hv).1
  obtain ⟨v, hv, hposv, hone⟩ := counts_load hpos
  have hview : (a.load i).view sfsRootLocation = a.view sfsRootLocation := by rw [view_load]
  have hu : (a.load i).slotIno sfsRootLocation k ≠ sfsNoino := by
    rwa [slotIno_congr (congrArg FileView.bytes hview), hino]
  have hlive := hok.entry hentry
  dsimp only
  rw [wp_bind, wp_attempt]
  refine (unlink_spec h₁ hl.load (hok.dir.congr_view hview) hu).mono (fun _ s₂ h₂ => ?_)
    (fun e s₂ he => ?_) fun _ hk => hk
  · refine h₂.unlinked hv hposv (fun h1 => ⟨(hone h1).1, ne_root_of_unloaded hl (hone h1).2⟩) (fun hz => ?_)
      fun s₃ h₃ => ⟨k, i, hentry, h₃.imp_right fun h' => ⟨(hone h'.1).2, h'.2⟩⟩
    rw [view_load] at hz
    omega
  · dsimp only
    rw [wp_bind]
    exact (decref_load he.2.2 hpos (Nat.ne_of_gt hlive.2) h.nodup).imp fun _ s₃ h₃ => h₃.fails hok.dir hr

def RenamePanics (c : Prop) (a : Vol) (name : CString) (p : FsPanic) : Prop :=
  ¬ c ∧ p = .cannotRecover ∨ p = .assertionFailed .isFile ∧ (∃ k, a.Entry sfsRootLocation k sfsRootLocation name) ∨
    p = .assertionFailed .linkcountPositive ∧ ∃ k i, a.Entry sfsRootLocation k i name ∧
    (a.view i).linkcount + 1 = 2 ^ 16

def Vol.relink (a : Vol) (slot i : Nat) (name : CString) : Vol :=
  ((a.link slot i name).setSlot sfsRootLocation slot zeroBlock).setLinkcount i (a.view i).linkcount

theorem relink_kept (hd : DirOk a sfsRootLocation) (hf : FreeSlot a sfsRootLocation slot name)
    (hi : i ≠ sfsRootLocation) : a.Kept (a.relink slot i name) := by
  have hroot : sfsRootLocation ≠ i := hi.symm
  refine ⟨fun _ h => h, fun _ h => Or.inl h, fun j _ hj => ?_,
    ⟨DirOk.setLinkcount ((hd.link hf).clear hf.room), ?_, fun k => ?_, fun k hk => ?_⟩,
    fun _ _ h => h, fun _ _ h => Or.inl h⟩
  · unfold Vol.relink
    by_cases hji : j = i
    · subst hji
      unfold Vol.setLinkcount
      rw [view_setView_self, view_setSlot_of_ne hj]
      unfold Vol.link Vol.setLinkcount
      rw [view_setView_self, view_setSlot_of_ne hj]
    · rw [view_setLinkcount_of_ne hji, view_setSlot_of_ne hj]
      unfold Vol.link
      rw [view_setLinkcount_of_ne hji, view_setSlot_of_ne hj]
  · unfold Vol.relink
    rw [view_setLinkcount_of_ne hroot, linkcount_setSlot]
    unfold Vol.link
    rw [view_setLinkcount_of_ne hroot, linkcount_setSlot]
  · unfold Vol.relink
    rw [slotIno_setLinkcount, slotIno_setSlot]
    split
    · rename_i hks
      rw [entryIno_zeroBlock, hks, hf.unused hd]
    · rename_i hks
      unfold Vol.link
      rw [slotIno_setLinkcount, slotIno_setSlot, if_neg hks]
  · have hks : k ≠ slot := fun e => hk (e ▸ hf.unused hd)
    unfold Vol.relink
    rw [slotName_setLinkcount, slotName_setSlot, if_neg hks]
    unfold Vol.link
    rw [slotName_setLinkcount, slotName_setSlot, if_neg hks]

section
variable {n1 n2 : CString} (hl : a.Loaded sfsRootLocation) (hok : VolSafe a) (hr : a.live sfsRootLocation)
  (hn : (a.table.map Prod.fst).Nodup) (hentry : a.Entry sfsRootLocation k i n1) (hi : i ≠ sfsRootLocation)
  (hlt : (a.view i).linkcount < 2 ^ 16) (hi32 : i < 2 ^ 32) (hf : FreeSlot a sfsRootLocation slot n2)
include hl hok hr hn hentry hi hlt hi32 hf

theorem rename_undo {α : Type} {Q : α → Sfs → Prop} (h : Rep c s ((a.load i).link slot i n2))
    (hdirty : ∃ sv, s.vnode i = some sv ∧ sv.svDirty = true) (hc : ¬ c) (he : e = .eio) (hK : K .cannotRecover) :
    wp (do
      match ← attempt (sfsDirUnlink sfsRootLocation slot) with
      | .error _ => crash .cannotRecover
      | .ok _ =>
        modifySv i fun sv => { sv with svI := { sv.svI with sfiLinkcount := decLink sv.svI.sfiLinkcount } }
        decref i
        throw e) Q (NameFails c a) K s := by
  have hslot := hok.entry hentry
  obtain ⟨-, -, h0, -⟩ := hentry
  have hview : (a.load i).view sfsRootLocation = a.view sfsRootLocation := by rw [view_load]
  have hd : DirOk ((a.load i).link slot i n2) sfsRootLocation := (hok.dir.congr_view hview).link (hf.congr hview)
  have hu : ((a.load i).link slot i n2).slotIno sfsRootLocation slot ≠ sfsNoino := by
    rw [slotIno_link hi32, if_pos rfl]
    exact h0
  -- the vnode of file `i` is not touched and stays dirty
  have hframe := @others_writedir sfsRootLocation zeroBlock slot s
  rw [wp_bind, wp_attempt]
  refine ((unlink_spec h hl.load hd hu).and hframe).mono (fun _ s₁ => ?_) (fun e s₁ _ => hK) fun p hp => hp.1.elim
  rintro ⟨h₁, hother⟩
  obtain ⟨sv, hsv, hdirty⟩ := hdirty
  rw [← hother i hi] at hsv
  obtain ⟨own, h₁, ht⟩ := h₁
  have hcount : sv.svI.sfiLinkcount = incLink (a.view i).linkcount := by
    rw [h₁.linkcount hsv, linkcount_setSlot, linkcount_link, view_load]
  have hback : decLink (incLink (a.view i).linkcount) = (a.view i).linkcount := by
    unfold decLink incLink
    omega
  have h₃ : Rep c (s₁.modifySv i fun sv =>
      { sv with svI := { sv.svI with sfiLinkcount := decLink sv.svI.sfiLinkcount } })
      ((a.relink slot i n2).load i) := by
    refine ⟨own, ?_, ht⟩
    unfold Vol.relink
    rw [load_setLinkcount, load_setSlot, load_link]
    exact h₁.setLinkcount hsv (fun _ => ⟨rfl, rfl⟩) (by rw [hcount, hback]) hlt hdirty
  dsimp only
  rw [wp_bind, wp_modifySv, wp_bind]
  have hlink : ((a.relink slot i n2).view i).linkcount ≠ 0 := by
    unfold Vol.relink
    rw [linkcount_setLinkcount]
    exact Nat.ne_of_gt hslot.2
  exact (decref_load h₃ (fun v hv => (hok.counts i v hv).1) hlink hn).mono
    (fun _ s₄ h₄ => (relink_kept hok.dir hf hi).fails hr hc he h₄) (fun _ _ he => he) fun _ hk => hk.elim

theorem renameUnlink_spec (h : Rep c s ((a.load i).link slot i n2))
    (hdirty : ∃ sv, s.vnode i = some sv ∧ sv.svDirty = true) :
    wp (renameUnlink sfsRootLocation i k slot)
      (fun _ s' => Rep c s' ((((a.load i).link slot i n2).unlink k i).drop i) ∨
        a.counts i = none ∧ Stuck c (((a.load i).link slot i n2).unlink k i) i s')
      (NameFails c a) (RenamePanics c a n1) s := by
  have ⟨hk, hino, h0, _⟩ := hentry
  have hview : (a.load i).view sfsRootLocation = a.view sfsRootLocation := by rw [view_load]
  have hd : DirOk ((a.load i).link slot i n2) sfsRootLocation := (hok.dir.congr_view hview).link (hf.congr hview)
  have hne : k ≠ slot := fun e => h0 (by rw [← hino, e]; exact hf.unused hok.dir)
  have hu : ((a.load i).link slot i n2).slotIno sfsRootLocation k ≠ sfsNoino := by
    rw [slotIno_link hi32, if_neg hne, slotIno_congr (congrArg FileView.bytes hview), hino]
    exact h0
  obtain ⟨v, hv, hpos, hone⟩ := counts_load fun v hv => (hok.counts i v hv).1
  have hframe := @others_writedir sfsRootLocation zeroBlock k s
  unfold renameUnlink
  rw [wp_bind, wp_attempt]
  refine ((unlink_spec h hl.load hd hu).and hframe).mono (fun _ s₁ h₁ => ?_) (fun e s₁ => ?_) fun p hp => hp.1.elim
  · dsimp only
    refine h₁.1.unlinked hv hpos (fun h1 => ⟨(hone h1).1, hi⟩) (fun hz => ?_)
      fun s₂ h₂ => h₂.imp_right fun h' => ⟨(hone h'.1).2, h'.2⟩
    rw [linkcount_link, view_load] at hz
    unfold incLink at hz
    exact Or.inr (Or.inr ⟨rfl, k, i, hentry, by omega⟩)
  · rintro ⟨⟨hc, he, h₁⟩, hother⟩
    rw [← hother i hi] at hdirty
    exact rename_undo hl hok hr hn hentry hi hlt hi32 hf h₁ hdirty hc he (Or.inl ⟨hc, rfl⟩)

end

theorem rename_spec {n1 n2 : CString} (h : Rep c s a) (hl : a.Loaded sfsRootLocation) (hok : VolSafe a) :
    wp (sfsRename sfsRootLocation n1 n2)
      (fun _ s' => ∃ k i slot, i ≠ sfsRootLocation ∧ a.Entry sfsRootLocation k i n1 ∧
        FreeSlot a sfsRootLocation slot n2 ∧ (Rep c s' ((((a.load i).link slot i n2).unlink k i).drop i) ∨
          a.counts i = none ∧ Stuck c (((a.load i).link slot i n2).unlink k i) i s'))
      (NameFails c a) (RenamePanics c a n1) s := by
  have hr := h.live_of_loaded hl
  unfold sfsRename
  rw [wp_bind, wp_assertFs rfl]
  refine wp_bind.mpr ((lookonce_spec h hl hok).mono (fun r s₁ => ?_) (fun e s₁ he => he.2.undone.fails hok.dir hr)
    fun _ hk => hk.elim)
  obtain ⟨i, k⟩ := r
  rintro ⟨(hentry : a.Entry sfsRootLocation k i n1), (h₁ : Rep c s₁ (a.load i))⟩
  have ⟨hk, hino, h0, _⟩ := hentry
  have hview : (a.load i).view sfsRootLocation = a.view sfsRootLocation := by rw [view_load]
  have hlive := hok.entry hentry
  have hi32 := h.lt_of_live hlive.1
  have hlt := h₁.linkcount_lt loaded_load
  rw [view_load] at hlt
  obtain ⟨sv, hsv⟩ := h₁.vnode loaded_load
  dsimp only
  rw [wp_bind, wp_getSv hsv, wp_bind]
  by_cases hi : i = sfsRootLocation
  · -- only the root is not a file
    subst hi
    have htype : ¬ sv.svI.sfiType = sfsTypeFile := by
      obtain ⟨own, h₁, -⟩ := h₁
      rw [h₁.inode_type_vnode hsv, if_pos rfl]
      decide
    unfold assertFs Proc.require
    rw [if_neg htype]
    exact Or.inr (Or.inl ⟨rfl, k, hentry⟩)
  have htype : sv.svI.sfiType = sfsTypeFile := by
    obtain ⟨own, h₁, -⟩ := h₁
    rw [h₁.inode_type_vnode hsv, if_neg hi]
  rw [wp_assertFs htype, wp_bind, wp_attempt]
  refine (dirLink_spec h₁ hl.load (hok.dir.congr_view hview)).mono (fun slot s₂ => ?_) (fun e s₂ he => ?_)
    fun _ hk => hk.elim
  · rintro ⟨hslot, h₂⟩
    have hf := hslot.congr hview.symm
    dsimp only
    rw [wp_bind]
    refine h₂.linkName loaded_load fun s₃ h₃ hdirty => ?_
    exact (renameUnlink_spec hl hok hr h.nodup hentry hi hlt hi32 hf h₃ hdirty).imp fun _ s₄ h₄ =>
      ⟨k, i, slot, hi, hentry, hf, h₄⟩
  · dsimp only
    rw [wp_bind]
    have hpos := fun v hv => (hok.counts i v hv).1
    exact (decref_load he.1 hpos (Nat.ne_of_gt hlive.2) h.nodup).mono (fun _ s₃ h₃ => h₃.fails hok.dir hr)
      (fun _ _ he => he) fun _ hk => hk.elim

/-! ## Operations that fail -/

theorem RepAt.dirOp {α : Type} {own : Nat → BlockOwner} {Q : α → Sfs → Prop} {p : SfsM α} {op : Vop}
    (h : RepAt c own s a)
    (hok : VolSafe a) (hl : a.Loaded d) (hE : E .enotdir s) (hp : d = sfsRootLocation → wp p Q E K s) :
    wp (Os161.dirOp d op p) Q E K s := by
  obtain ⟨v, hv⟩ := hl
  obtain ⟨sv, hsv, rfl⟩ := h.counts_vnode hv
  obtain ⟨hr, ho, -⟩ := hok.counts d _ hv
  unfold Os161.dirOp
  rw [wp_bind]
  refine wp_vopCheck hsv hr ho _ ?_
  rw [h.inode_type_vnode hsv]
  by_cases hd : d = sfsRootLocation
  · rw [if_pos hd, if_neg (not_not_intro rfl)]
    exact hp hd
  · rw [if_neg hd, if_pos (by decide)]
    exact hE

def SfsOp.naming : SfsOp → Bool
  | .creat .. | .link .. | .remove .. | .rename .. => true
  | _ => false

theorem naming_spec {op : SfsOp} (h : Rep c s a) (hok : VolSafe a) (hop : op.naming = true)
    (hl : ∀ i ∈ op.vnodes, a.Loaded i) : wp op.run (fun _ _ => True) (NameFails c a) (fun _ => True) s := by
  have ⟨own, hat, _⟩ := h
  have hfail : NameFails c a .enotdir s := h.undone.fails hok.dir ((hat.live _).mpr hat.owned.root)
  cases op <;> cases hop
  case creat dir name excl =>
    have hdir := hl dir List.mem_cons_self
    unfold SfsOp.run vopCreat
    rw [wp_bind]
    refine hat.dirOp hok hdir hfail fun hd => ?_
    subst hd
    exact (creat_spec h hdir hok).mono (fun _ _ _ => trivial) (fun _ _ he => he) fun _ _ => trivial
  case link dir name file =>
    have hdir := hl dir List.mem_cons_self
    refine hat.dirOp hok hdir hfail fun hd => ?_
    subst hd
    have hfile := hl file (List.mem_cons_of_mem _ List.mem_cons_self)
    exact (link_spec h hdir hok hfile).mono (fun _ _ _ => trivial) (fun _ _ he => he) fun _ _ => trivial
  case remove dir name =>
    have hdir := hl dir List.mem_cons_self
    refine hat.dirOp hok hdir hfail fun hd => ?_
    subst hd
    exact (remove_spec h hdir hok).mono (fun _ _ _ => trivial) (fun _ _ he => he) fun _ _ => trivial
  case rename dir n1 n2 =>
    have hdir := hl dir List.mem_cons_self
    refine hat.dirOp hok hdir hfail fun hd => ?_
    subst hd
    exact (rename_spec h hdir hok).mono (fun _ _ _ => trivial) (fun _ _ he => he) fun _ _ => trivial

def Vol.find (a : Vol) (d : Nat) (name : CString) : Option Nat :=
  ((List.range (a.nslots d)).find? fun k => a.slotIno d k ≠ sfsNoino ∧ a.slotName d k = name.chars).map (a.slotIno d)

theorem find_congr (h : a'.view d = a.view d) : a'.find d name = a.find d name := by
  unfold Vol.find
  rw [nslots_congr (congrArg FileView.size h), slotIno_congr (congrArg FileView.bytes h),
    slotName_congr (congrArg FileView.bytes h)]

theorem SfsOp.callable_loaded {own : Nat → BlockOwner} {op : SfsOp} (h : RepAt c own s a) (hc : op.callable s = true) :
    ∀ i ∈ op.vnodes, a.Loaded i := by
  intro i hi
  unfold SfsOp.callable at hc
  have hall := (Bool.and_eq_true_iff.mp hc).1
  have hsome := List.all_eq_true.mp hall i hi
  obtain ⟨sv, hv⟩ := Option.isSome_iff_exists.mp hsome
  exact h.loaded hv

/-- An operation that fails for another reason than the device leaves the
names, the link counts, the contents of every file and the counts of every
vnode as they were. -/
theorem failed_naming_unchanged {own : Nat → BlockOwner} {op : SfsOp} {e : Errno} (h : Owned own s)
    (hok : VolSafe (s.vol own)) (hop : op.naming = true) (hcall : op.callable s = true) (he : e ≠ .eio)
    (hrun : op.run s = .ok (.error e, s')) : ∃ own', Owned own' s' ∧
      (∀ name, (s'.vol own').find sfsRootLocation name = (s.vol own).find sfsRootLocation name) ∧
      (∀ i, own i = .inode → own' i = .inode ∧ s'.view i = s.view i) ∧
      ∀ i sv, s.vnode i = some sv → ∃ sv', s'.vnode i = some sv' ∧ sv'.svV = sv.svV := by
  have hrep : Rep False s (s.vol own) := ⟨own, h.rep, False.elim⟩
  have hfail := (naming_spec hrep hok hop (SfsOp.callable_loaded h.rep hcall)).error hrun
  obtain ⟨a', hsame, hroot, -, own', h', -⟩ := hfail
  have hview : ∀ i, own i = .inode → own' i = .inode ∧ s'.view i = s.view i := fun i hi => by
    have hlive := hsame.live i hi
    refine ⟨(h'.live i).mp hlive, ?_⟩
    rw [h'.view i hlive]
    by_cases hir : i = sfsRootLocation
    · rw [hir]
      exact hroot he
    · exact hsame.view i hi hir
  refine ⟨own', h'.owned, fun name => find_congr (hview _ h.root).2, hview, fun i sv hv => ?_⟩
  have hcounts : (s.vol own).counts i = some sv.svV := by
    rw [h.rep.counts, hv]
    rfl
  exact h'.counts_vnode (hsame.counts i _ hcounts)

end

def emptyRoot : Sfs :=
  (oneBlock 2 zeroBlock).append
    { svV := vnodeInit, svI := readInode ((oneBlock 2 zeroBlock).disk sfsRootLocation), svIno := sfsRootLocation,
      svDirty := false }

theorem emptyRoot_rep : RepAt False oneOwner emptyRoot { (oneBlock 2 zeroBlock).vol oneOwner with
    table := ((oneBlock 2 zeroBlock).vol oneOwner).table ++ [(sfsRootLocation, vnodeInit)] } :=
  (oneBlock_owned (by decide)).rep.append rfl rfl

theorem emptyRoot_inode : emptyRoot.inode sfsRootLocation = rootInode := @oneBlock_inode_root 2 zeroBlock

theorem emptyRoot_safe : VolSafe (emptyRoot.vol oneOwner) := by
  have hsize : ((emptyRoot.vol oneOwner).view sfsRootLocation).size = 0 := by
    show (emptyRoot.inode sfsRootLocation).sfiSize = 0
    rw [emptyRoot_inode]
    rfl
  have hnone : (emptyRoot.vol oneOwner).nslots sfsRootLocation = 0 := by
    unfold Vol.nslots
    rw [hsize]
    rfl
  have hptr : ∀ n, emptyRoot.ptr sfsRootLocation n = 0 := fun n => by
    rw [Sfs.ptr, emptyRoot_inode]
    unfold Inode.ptr rootInode
    simp
  have hino : ∀ k, (emptyRoot.vol oneOwner).slotIno sfsRootLocation k = sfsNoino := by
    intro k
    refine Eq.trans (entryIno_congr fun y hy => ?_) entryIno_zeroBlock
    rw [Vol.slot, if_pos hy]
    exact if_neg fun hn => hn.2 (hptr _)
  refine ⟨fun i v hv => ?_, ⟨?_, ?_, ?_, ?_, fun k _ => hino k⟩, fun k hk => absurd (hino k) hk⟩
  · obtain ⟨p, hp, rfl⟩ := Option.map_eq_some_iff.mp hv
    have hmem : p ∈ [(3, { vnRefcount := 1, vnOpencount := 1 }), (sfsRootLocation, vnodeInit)] := Table.get_mem hp
    rcases List.mem_pair.mp hmem with rfl | rfl <;> decide
  · show (emptyRoot.inode sfsRootLocation).sfiType = sfsTypeDir
    rw [emptyRoot_inode]
    rfl
  · rw [hsize]
    rfl
  · rw [hsize]
    exact Nat.zero_le _
  · rw [hnone]
    simp

theorem VolSafe.of_root {a a' : Vol} (h : VolSafe a) (hview : a'.view sfsRootLocation = a.view sfsRootLocation)
    (hsize : (a.view sfsRootLocation).size = 0)
    (hcounts : ∀ i v, a'.counts i = some v → 0 < v.vnRefcount ∧ 0 ≤ v.vnOpencount ∧ v.vnOpencount ≤ v.vnRefcount) :
    VolSafe a' := by
  refine ⟨hcounts, h.dir.congr_view hview, fun k hk => absurd ?_ hk⟩
  rw [slotIno_congr (congrArg FileView.bytes hview)]
  exact h.dir.beyond k (by rw [Vol.nslots, hsize]; exact Nat.zero_le _)

/-- The volume with the file cut to nothing, so that block 4 is free. -/
def freedBlock : Sfs :=
  match sfsTruncate 3 0 emptyRoot with
  | .ok (_, s) => s
  | .error _ => emptyRoot

theorem freedBlock_safe : ∃ own, Owned own freedBlock ∧ VolSafe (freedBlock.vol own) := by
  have hrun : sfsTruncate 3 0 emptyRoot = .ok (.ok (), freedBlock) := rfl
  obtain ⟨own, h, -⟩ := (truncate_rep emptyRoot_rep.owned.rep ⟨_, rfl⟩ 0).ok hrun
  refine ⟨own, h.owned, emptyRoot_safe.of_root ?_ (congrArg Inode.sfiSize emptyRoot_inode) fun i v hv => ?_⟩
  · refine (h.view _ ((h.live _).mpr h.owned.root)).trans ?_
    exact view_setView_of_ne (by decide)
  · exact emptyRoot_safe.counts i v ((h.counts i).trans ((h.owned.rep.counts i).symm.trans hv))

def longName : CString := ⟨List.replicate 60 97, by decide⟩

set_option maxRecDepth 30000 in
theorem failed_naming_unchanged_creat : ∃ s', (SfsOp.creat sfsRootLocation longName true).run freedBlock =
    .ok (.error .enametoolong, s') ∧ freedBlock.writes < s'.writes ∧ ∃ own own' : Nat → BlockOwner, Owned own' s' ∧
      ∀ i, own i = .inode → own' i = .inode ∧ s'.view i = freedBlock.view i := by
  obtain ⟨own, h, hok⟩ := freedBlock_safe
  have hrun : (SfsOp.creat sfsRootLocation longName true).run freedBlock = .ok (.error .enametoolong, _) := rfl
  obtain ⟨own', h', -, hview, -⟩ := failed_naming_unchanged h hok (by rfl) (by rfl) (by decide) hrun
  exact ⟨_, hrun, by decide, own, own', h', hview⟩

/-! ## Volumes that are too large, and lost writes -/

section
variable {s s₁ s₂ s₃ s₄ : Sfs} {dir b : Nat} {name : CString} {excl : Bool} {e : Errno} {sv : SfsVnode}

theorem balloc_eq (hb : bitmapAlloc s.sfsFreemap s.nbits = some b) (hlt : b < s.nblocks)
    (hc : sfsClearblock b { s with sfsFreemap := Function.update s.sfsFreemap b true, sfsFreemapdirty := true } =
      .ok (.ok (), s₁)) : sfsBalloc s = .ok (.ok b, s₁) := by
  unfold sfsBalloc
  rw [bind_ok (rfl : Proc.get s = .ok (.ok s, s)), hb]
  dsimp only
  rw [bind_ok rfl, if_neg (Nat.not_le.mpr hlt)]
  exact bind_ok hc

theorem creat_fails (hc : vopCheck dir .creat s = .ok (.ok sv, s)) (hdir : sv.svI.sfiType = sfsTypeDir)
    (hf : sfsDirFindname dir name s = .ok (.ok ⟨none, none⟩, s)) (hb : sfsBalloc s = .ok (.ok b, s₁))
    (hl : sfsLoadvnode b sfsTypeFile s₁ = .ok (.ok (), s₂)) (he : sfsDirLink dir name b s₂ = .ok (.error e, s₃))
    (hd : decref b s₃ = .ok (.ok (), s₄)) : (SfsOp.creat dir name excl).run s = .ok (.error e, s₄) := by
  have hm : sfsMakeobj sfsTypeFile s = .ok (.ok b, s₂) := by
    unfold sfsMakeobj
    rw [bind_ok hb, bind_ok hl]
    rfl
  have ha : attempt (sfsDirLink dir name b) s₂ = .ok (.ok (.error e), s₃) := by
    unfold attempt
    rw [he]
  have hnew : sfsCreatNew dir name s = .ok (.error e, s₄) := by
    unfold sfsCreatNew
    rw [bind_ok hm, bind_ok ha]
    exact bind_ok hd
  have hv : vopCreat dir name excl s = .ok (.error e, s₄) := by
    unfold vopCreat dirOp sfsCreat
    rw [bind_ok hc, if_neg (not_not.mpr hdir)]
    exact (bind_ok hf).trans hnew
  simp only [SfsOp.run, Bind.bind]
  rw [hv]

end

/-- A file `ino` with one block on a volume of `n` blocks, of which only one is free. -/
def nearlyFull (n ino free : Nat) (stale : Mem) (lost : List Bool) : Sfs :=
  { emptyRoot with
    disk := Function.update (Function.update (Function.update emptyRoot.disk sfsSbLocation
      (superBlock { spMagic := sfsMagic, spNblocks := n, spVolname := [] })) (ino + 1) fun _ => 5) free stale
    dBlocks := n
    sfsSuper := { spMagic := sfsMagic, spNblocks := n, spVolname := [] }
    sfsVnodes := emptyRoot.sfsVnodes.map fun sv =>
      if sv.svIno = 3 then { sv with svIno := ino, svI := sv.svI.setDirect ⟨0, by decide⟩ (ino + 1) } else sv
    sfsFreemap := fun b => b != free
    lost := lost }

/-- The free block is `2 ^ 23 + 2052`, whose byte offset is that of block 2052. -/
def vastVolume : Sfs := nearlyFull 8390661 2051 8390660 zeroBlock []

theorem vastVolume_alloc : bitmapAlloc vastVolume.sfsFreemap vastVolume.nbits = some 8390660 := by
  refine List.find?_range_eq_some.mpr ⟨rfl, List.mem_range.mpr (by decide), fun b hb => ?_⟩
  have hmarked : vastVolume.sfsFreemap b = true := bne_iff_ne.mpr (Nat.ne_of_lt hb)
  rw [hmarked]
  rfl

def vastCleared : Sfs :=
  { vastVolume with
    disk := Function.update vastVolume.disk 2052 zeroBlock
    sfsFreemap := Function.update vastVolume.sfsFreemap 8390660 true
    sfsFreemapdirty := true
    writes := 1 }

theorem vastVolume_balloc : sfsBalloc vastVolume = .ok (.ok 8390660, vastCleared) := by
  refine balloc_eq vastVolume_alloc (by decide) ?_
  have hsector : sectorOf 8390660 = 2052 := by decide
  unfold sfsClearblock sfsWblock
  rw [hsector]
  rfl

/-- The free block holds what could be an inode, with a pointer to the block of the file. -/
def lossyVolume : Sfs :=
  nearlyFull 6 3 5 (inodeBlock {
    sfiSize := 0
    sfiType := sfsTypeInval
    sfiLinkcount := 0
    sfiDirect := fun k => if k.val = 0 then 4 else 0
    sfiIndirect := 0 }) [true]

set_option maxRecDepth 30000 in
theorem failed_creat_changes :
    (∃ s', (SfsOp.creat sfsRootLocation longName true).run vastVolume = .ok (.error .enametoolong, s') ∧
      (vastVolume.view 2051).bytes 0 = 5 ∧ (s'.view 2051).bytes 0 = 0) ∧
    ∃ s', (SfsOp.creat sfsRootLocation longName true).run lossyVolume = .ok (.error .enametoolong, s') ∧
      (∃ r, sfsRead 3 (readXfer 0 1) lossyVolume = .ok r) ∧
      sfsRead 3 (readXfer 0 1) s' = .error (.dataBlockFree 4 0 3) :=
  ⟨⟨_, creat_fails rfl rfl rfl vastVolume_balloc rfl rfl rfl, rfl, rfl⟩, _, rfl, ⟨_, rfl⟩, rfl⟩

end Os161
