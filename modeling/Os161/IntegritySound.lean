import Os161.MksfsSound
import Os161.LinkSound

/-!
# A volume over whole runs

Every operation leaves the volume in order, also when the device fails, and
changes no file but the one that it writes to or cuts.
-/

namespace Os161

open Bytes Outcome Proc

/-- The volume is in order. If `q`, no name leads to the root. -/
structure VolInv (q : Prop) (a : Vol) : Prop extends VolOk a where
  unrooted : q → (a.view sfsRootLocation).linkcount = 1

/-- If `q`, no name leads to the root; if `c`, the device never fails and no
block is lost. -/
def Consistent (q c : Prop) (s : Sfs) : Prop := ∃ a, Rep c s a ∧ VolInv q a

def SameContents (i : Nat) (a a' : Vol) : Prop :=
  (a'.view i).size = (a.view i).size ∧ (a'.view i).bytes = (a.view i).bytes

/-- What becomes of the volume `a` in an operation that writes to the files
`W`. -/
def Follows (q c : Prop) (W : Nat → Prop) (a : Vol) (s : Sfs) : Prop :=
  ∃ a', Rep c s a' ∧ VolInv q a' ∧ (c → ∀ i, a.live i → i ≠ sfsRootLocation → ¬ W i → SameContents i a a')

def Stops (q c : Prop) (p : FsPanic) : Prop :=
  ¬ c ∧ (p = .cannotLoadRoot ∨ p = .cannotRecover) ∨ ¬ q ∧ p = .assertionFailed .isFile

/-- However `p` ends, the volume follows, or the machine stops as it may. -/
abbrev Conforms {α : Type} (q c : Prop) (W : Nat → Prop) (a : Vol) (p : SfsM α) (s : Sfs) : Prop :=
  wp p (fun _ => Follows q c W a) (fun _ => Follows q c W a) (Stops q c) s

section
variable {q c : Prop} {W : Nat → Prop} {own : Nat → BlockOwner} {s s' t : Sfs} {a a' u : Vol}
  {b d i j k ino slot : Nat} {name : CString} {v : VnodeCounts} {w : FileView} {E : Errno → Sfs → Prop}
  {K : FsPanic → Prop}

/-! ## The volume -/

theorem VolInv.load (h : VolInv q a) : VolInv q (a.load i) :=
  ⟨h.toVolOk.load, fun hq => by rw [view_load, h.unrooted hq]⟩

theorem VolInv.setView (h : VolInv q a) (hi : i ≠ sfsRootLocation) (hw : w.linkcount = (a.view i).linkcount) :
    VolInv q (a.setView i w) :=
  ⟨h.toVolOk.setView hi hw, fun hq => by rw [view_setView_of_ne hi.symm, h.unrooted hq]⟩

theorem view_drop : (a.drop i).view = a.view := by
  unfold Vol.drop
  cases a.counts i with
  | none => rfl
  | some v =>
    dsimp only
    split <;> rfl

theorem VolInv.drop (h : VolInv q a) (hn : (a.table.map Prod.fst).Nodup) (hv : a.counts i = some v)
    (ho : v.vnOpencount < v.vnRefcount) : VolInv q (a.drop i) :=
  ⟨h.toVolOk.drop hn hv ho, fun hq => by rw [view_drop, h.unrooted hq]⟩

theorem VolInv.kept (h : VolInv q a) (hk : a.Kept a') : VolInv q a' :=
  ⟨h.toVolOk.kept hk, fun hq => by rw [hk.names.linkcount, h.unrooted hq]⟩

theorem VolInv.make (h : VolInv q a) (hnew : ¬ a.live b) (hb : ¬ a.Loaded b) (h0 : b ≠ sfsNoino)
    (hroot : b ≠ sfsRootLocation) (type : Nat) : VolInv q (a.make b type) :=
  ⟨h.toVolOk.make hnew hb h0 hroot type, fun hq => by rw [view_make_of_ne hroot.symm, h.unrooted hq]⟩

theorem VolInv.link (h : VolInv q a) (hf : FreeSlot a sfsRootLocation slot name) (hlive : a.live ino)
    (hi32 : ino < 2 ^ 32) (hroot : q → ino ≠ sfsRootLocation) : VolInv q (a.link slot ino name) :=
  ⟨h.toVolOk.link hf hlive hi32, fun hq => by
    unfold Vol.link
    rw [view_setLinkcount_of_ne (hroot hq).symm, linkcount_setSlot, h.unrooted hq]⟩

theorem VolInv.unlink (h : VolInv q a) (hu : a.slotIno sfsRootLocation k = ino) (h0 : ino ≠ sfsNoino)
    (hl : a.Loaded ino) (hroot : q → ino ≠ sfsRootLocation) : VolInv q (a.unlink k ino) :=
  ⟨h.toVolOk.unlink hu h0 hl, fun hq => by
    unfold Vol.unlink
    rw [view_setLinkcount_of_ne (hroot hq).symm, linkcount_setSlot, h.unrooted hq]⟩

theorem VolInv.setCounts (h : VolInv q a) (hv : 0 < v.vnRefcount ∧ 0 ≤ v.vnOpencount ∧ v.vnOpencount ≤ v.vnRefcount)
    (hl : a.Loaded i) : VolInv q (a.setCounts i v) := ⟨h.toVolOk.setCounts hv hl, h.unrooted⟩

theorem VolInv.ne_root (h : VolInv q a) (hlive : a.live sfsRootLocation) (hq : q)
    (he : a.Entry sfsRootLocation k i name) : i ≠ sfsRootLocation := by
  rintro rfl
  obtain ⟨-, hino, h0, -⟩ := he
  have hpos := nlinks_pos h.dir (by rwa [hino])
  have hcount := h.linkcount _ hlive
  rw [h.unrooted hq, Vol.links, if_pos rfl] at hcount
  rw [hino] at hpos
  omega

theorem VolInv.root_linked (h : VolInv q a) (hlive : a.live sfsRootLocation) (h0 : (a.view i).linkcount = 0) :
    i ≠ sfsRootLocation := by
  rintro rfl
  rw [h.linkcount _ hlive, Vol.links, if_pos rfl] at h0
  exact Nat.succ_ne_zero _ h0

theorem VolInv.counts_load (h : VolInv q a) : ∃ v, (a.load i).counts i = some v ∧ v.vnOpencount < v.vnRefcount := by
  cases hi : a.counts i with
  | none => exact ⟨vnodeInit, counts_load_none hi, by decide⟩
  | some v =>
    have hv := h.counts i v hi
    exact ⟨vnodeIncref v, counts_load_some hi, by unfold vnodeIncref; dsimp only; omega⟩

theorem nodup_load (h : (a.table.map Prod.fst).Nodup) : ((a.load i).table.map Prod.fst).Nodup := by
  unfold Vol.load
  cases hi : a.counts i with
  | some v =>
    dsimp only [Vol.setCounts]
    rw [Table.map_modify Prod.fst]
    · exact h
    · intro p _ _
      rfl
  | none =>
    have hget : Table.get Prod.fst a.table i = none := Option.map_eq_none_iff.mp hi
    exact Table.nodup_append h hget

/-! ## What stays as it is -/

theorem SameContents.of_view (h : a'.view i = a.view i) : SameContents i a a' := ⟨by rw [h], by rw [h]⟩

theorem SameContents.trans (h : SameContents i a u) (h' : SameContents i u a') : SameContents i a a' :=
  ⟨h'.1.trans h.1, h'.2.trans h.2⟩

theorem same_setLinkcount {n : Nat} : SameContents i a (a.setLinkcount j n) := view_setLinkcount.2

theorem same_link (hi : i ≠ sfsRootLocation) : SameContents i a (a.link slot ino name) :=
  .trans (.of_view (view_setView_of_ne hi)) same_setLinkcount

theorem same_unlink (hi : i ≠ sfsRootLocation) : SameContents i a (a.unlink k ino) :=
  .trans (.of_view (view_setView_of_ne hi)) same_setLinkcount

theorem Follows.same (h : Rep c s a) (hok : VolInv q a) : Follows q c W a s :=
  ⟨a, h, hok, fun _ _ _ _ _ => .of_view rfl⟩

theorem Follows.load (h : Rep c s (a.load i)) (hok : VolInv q a) : Follows q c W a s :=
  ⟨_, h, hok.load, fun _ j _ _ _ => .of_view (by rw [view_load])⟩

theorem Follows.of_fails {e : Errno} (h : NameFails c a e s) (hok : VolInv q a) : Follows q c W a s := by
  obtain ⟨a', hk, -, hc, h⟩ := h
  exact ⟨a', h, hok.kept hk, fun hcc _ _ _ _ => .of_view (by rw [hc hcc])⟩

theorem Follows.of_drop (hok : VolInv q u) (hn : (u.table.map Prod.fst).Nodup) (hlive : u.live sfsRootLocation)
    (hv : u.counts i = some v) (ho : v.vnOpencount < v.vnRefcount)
    (hsame : ∀ j, j ≠ sfsRootLocation → SameContents j a u) (h : Rep c s (u.drop i) ∨ Stuck c u i s) :
    Follows q c W a s := by
  rcases h with h | ⟨hc, h0, w, -, hlink, h⟩
  · exact ⟨_, h, hok.drop hn hv ho, fun _ j _ hj _ => (hsame j hj).trans (.of_view (by rw [view_drop]))⟩
  · exact ⟨_, h, hok.setView (hok.root_linked hlive h0) (hlink.trans h0.symm), fun hcc => absurd hcc hc⟩

/-! ## Names -/

section
variable (h : Rep c s a) (hok : VolInv q a)
include h hok

theorem getroot_follows : wp sfsGetroot (fun _ => Follows q c W a) E (Stops q c) s := by
  unfold sfsGetroot
  rw [wp_bind, wp_attempt]
  exact (loadvnode_spec h h.root_live).mono (fun _ s' h' => .load h' hok) (fun e s' he => Or.inl ⟨he.2.1, Or.inl rfl⟩)
    fun _ hk => hk.elim

theorem dirOp_follows {α : Type} {p : Nat → SfsM α} {op : Vop} (hd : a.Loaded d)
    (hp : a.Loaded sfsRootLocation → Conforms q c W a (p sfsRootLocation) s) :
    Conforms q c W a (dirOp d op (p d)) s := by
  obtain ⟨own, h', -⟩ := id h
  refine h'.dirOp hok.toVolOk.safe hd (.same h hok) fun e => ?_
  subst e
  exact hp hd

theorem lookup_follows (hd : a.Loaded sfsRootLocation) : Conforms q c W a (sfsLookup sfsRootLocation name) s := by
  unfold sfsLookup
  exact wp_bind.mpr ((lookonce_spec h hd hok.toVolOk.safe).mono (fun r s₁ h₁ => .load h₁.2 hok)
    (fun e s₁ he => .same he.2 hok) fun _ hk => hk.elim)

theorem creat_follows {excl : Bool} (hd : a.Loaded sfsRootLocation) :
    Conforms q c W a (sfsCreat sfsRootLocation name excl) s := by
  refine (creat_spec h hd hok.toVolOk.safe).mono (fun b s₁ h₁ => ?_) (fun e s₁ he => .of_fails he hok)
    fun _ hk => hk.elim
  rcases h₁ with ⟨k, -, h₁⟩ | ⟨slot, hnew, hb, h0, hb32, hf, h₁⟩
  · exact .load h₁ hok
  · have hb1 : b ≠ sfsRootLocation := fun e => hnew (e ▸ h.root_live)
    have hfree : FreeSlot (a.make b sfsTypeFile) sfsRootLocation slot name := hf.congr (view_make_of_ne hb1.symm)
    refine ⟨_, h₁, (hok.make hnew hb h0 hb1 _).link hfree (Or.inr rfl) hb32 fun _ => hb1, fun _ j hj hj1 _ => ?_⟩
    exact .trans (.of_view (view_make_of_ne fun e : j = b => hnew (e ▸ hj))) (same_link hj1)

theorem link_follows (hd : a.Loaded sfsRootLocation) (hi : a.Loaded ino) (hroot : q → ino ≠ sfsRootLocation) :
    Conforms q c W a (sfsLink sfsRootLocation name ino) s := by
  have hlive := h.live_of_loaded hi
  refine (link_spec h hd hok.toVolOk.safe hi).mono (fun _ s₁ => ?_) (fun e s₁ he => .of_fails he hok)
    fun _ hk => hk.elim
  rintro ⟨slot, hf, h₁⟩
  exact ⟨_, h₁, hok.link hf hlive (h.lt_of_live hlive) hroot, fun _ j _ hj _ => same_link hj⟩

theorem remove_follows (hd : a.Loaded sfsRootLocation) : Conforms q c W a (sfsRemove sfsRootLocation name) s := by
  refine (remove_spec h hd hok.toVolOk.safe).mono (fun _ s₁ => ?_) (fun e s₁ he => .of_fails he hok) fun _ hk => hk.elim
  rintro ⟨k, i, he, h₁⟩
  obtain ⟨-, hino, h0, -⟩ := id he
  obtain ⟨v, hv, ho⟩ := hok.counts_load (i := i)
  have hu : (a.load i).slotIno sfsRootLocation k = i := by rw [slotIno_load, hino]
  have hlive : (a.load i).live sfsRootLocation := by rw [live_load]; exact h.root_live
  refine .of_drop (u := (a.load i).unlink k i) (hok.load.unlink hu h0 loaded_load
    fun hq => hok.ne_root h.root_live hq he) (nodup_load h.nodup) hlive hv ho (fun j hj => ?_) (h₁.imp_right And.right)
  exact .trans (.of_view (by rw [view_load])) (same_unlink hj)

theorem rename_follows {n1 n2 : CString} (hd : a.Loaded sfsRootLocation) :
    Conforms q c W a (sfsRename sfsRootLocation n1 n2) s := by
  refine (rename_spec h hd hok.toVolOk.safe).mono (fun _ s₁ => ?_) (fun e s₁ he => .of_fails he hok) fun p hp => ?_
  · rintro ⟨k, i, slot, hi, he, hf, h₁⟩
    obtain ⟨-, hino, h0, -⟩ := id he
    obtain ⟨v, hv, ho⟩ := hok.counts_load (i := i)
    have hlive : a.live i := hino ▸ hok.slots k (by rwa [hino])
    have hi32 := h.lt_of_live hlive
    have hview : (a.load i).view sfsRootLocation = a.view sfsRootLocation := by rw [view_load]
    have hok₁ : VolInv q ((a.load i).link slot i n2) :=
      hok.load.link (hf.congr hview) (by rwa [live_load]) hi32 fun _ => hi
    have hu : ((a.load i).link slot i n2).slotIno sfsRootLocation k = i := by
      rw [slotIno_link hi32, slotIno_load, hino, ite_self]
    have hroot : (a.load i).live sfsRootLocation := by rw [live_load]; exact h.root_live
    refine .of_drop (u := ((a.load i).link slot i n2).unlink k i) (hok₁.unlink hu h0 loaded_load fun _ => hi)
      (nodup_load h.nodup) hroot hv ho (fun j hj => ?_) (h₁.imp_right And.right)
    exact .trans (.of_view (by rw [view_load])) ((same_link hj).trans (same_unlink hj))
  · rcases hp with hp | ⟨hp, k, he⟩ | ⟨-, k, i, ⟨-, hino, h0, -⟩, hlink⟩
    · exact Or.inl ⟨hp.1, Or.inr hp.2⟩
    · exact Or.inr ⟨fun hq => hok.ne_root h.root_live hq he rfl, hp⟩
    · have hlive : a.live i := hino ▸ hok.slots k (by rwa [hino])
      have hlt := @links_lt a i
      rw [hok.linkcount i hlive] at hlink
      omega

/-! ## References -/

theorem decref_follows (hv : a.counts i = some v) (ho : v.vnOpencount < v.vnRefcount) :
    wp (decref i) (fun _ => Follows q c W a) E (fun _ => False) s := by
  have hcounts := hok.counts i v hv
  refine (decref_spec h hv hcounts.1 (fun h1 => by omega) fun _ => hok.root_linked h.root_live).imp fun _ s' h' => ?_
  exact .of_drop hok h.nodup h.root_live hv ho (fun _ _ => .of_view rfl) (h'.imp_right And.right)

theorem setCounts_follows {f : VnodeCounts → VnodeCounts} (hv : a.counts i = some v)
    (hf : 0 < (f v).vnRefcount ∧ 0 ≤ (f v).vnOpencount ∧ (f v).vnOpencount ≤ (f v).vnRefcount) :
    wp (do
      let _ ← getSv i
      modifySv i fun sv => { sv with svV := f sv.svV }) (fun _ => Follows q c W a) E K s := by
  obtain ⟨own, h, ht⟩ := h
  obtain ⟨sv, hsv, rfl⟩ := h.counts_vnode hv
  rw [wp_bind, wp_getSv hsv, wp_modifySv]
  exact ⟨_, ⟨own, h.modifyCounts hsv, ht⟩, hok.setCounts hf ⟨_, hv⟩, fun _ _ _ _ _ => .of_view rfl⟩

theorem fsync_rep (hl : a.Loaded i) :
    wp (vopFsync i) (fun _ s' => Rep c s' a) (fun _ s' => Rep c s' a) (fun _ => False) s := by
  obtain ⟨own, h, ht⟩ := h
  obtain ⟨v, hv⟩ := hl
  have hcounts := hok.counts i v hv
  exact (vopFsync_spec h hv ⟨hcounts.1, hcounts.2.1⟩).mono (fun _ s' h' => ⟨own, h'.1, ht⟩)
    (fun _ _ he => he.elim) fun _ hk => hk

theorem close_rep (hl : a.Loaded i) :
    wp (vopClose i) (fun _ s' => Rep c s' a) (fun _ s' => Rep c s' a) (fun _ => False) s := by
  obtain ⟨v, hv⟩ := id hl
  have hcounts := hok.counts i v hv
  obtain ⟨own, h', -⟩ := id h
  obtain ⟨sv, hsv, rfl⟩ := h'.counts_vnode hv
  unfold vopClose
  rw [wp_bind]
  exact wp_vopCheck hsv hcounts.1 hcounts.2.1 _ (fsync_rep h hok hl)

theorem decopen_rep (hv : a.counts i = some v) (ho : 0 < v.vnOpencount) :
    wp (decopen i) (fun _ s' => Rep c s' (a.setCounts i { v with vnOpencount := v.vnOpencount - 1 })) E
      (fun _ => False) s := by
  obtain ⟨own, h, ht⟩ := h
  obtain ⟨sv, hsv, rfl⟩ := h.counts_vnode hv
  have hcounts := hok.counts i _ hv
  have hrep : Rep c _ _ :=
    ⟨own, h.modifyCounts (f := fun _ => { sv.svV with vnOpencount := sv.svV.vnOpencount - 1 }) hsv, ht⟩
  have hok' := hok.setCounts (v := { sv.svV with vnOpencount := sv.svV.vnOpencount - 1 }) (by dsimp only; omega) ⟨_, hv⟩
  unfold decopen vnodeDecopen
  rw [wp_bind, wp_getSv hsv, if_neg (Int.not_le.mpr ho), wp_bind, liftFs, wp_pure]
  dsimp only
  rw [wp_bind, wp_modifySv]
  split
  · rw [wp_bind, wp_attempt]
    exact (close_rep hrep hok' ⟨_, counts_setCounts_self ⟨_, hv⟩⟩).mono (fun _ _ h' => h')
      (fun _ _ h' => h') fun _ hk => hk
  · exact hrep

/-! ## Files -/

theorem wp_fileOp {α : Type} {Q : α → Sfs → Prop} {p : SfsM α} {op : Vop} (hl : a.Loaded i)
    (hE : i = sfsRootLocation → E .eisdir s) (hp : i ≠ sfsRootLocation → wp p Q E K s) :
    wp (fileOp i op p) Q E K s := by
  obtain ⟨v, hv⟩ := hl
  have hcounts := hok.counts i v hv
  obtain ⟨own, h, -⟩ := h
  obtain ⟨sv, hsv, rfl⟩ := h.counts_vnode hv
  unfold fileOp
  rw [wp_bind]
  refine wp_vopCheck hsv hcounts.1 hcounts.2.1 _ ?_
  rw [h.inode_type_vnode hsv]
  by_cases hi : i = sfsRootLocation
  · rw [if_pos hi, if_pos rfl]
    exact hE hi
  · rw [if_neg hi, if_neg (by decide)]
    exact hp hi

theorem read_follows {x : Xfer} (hl : a.Loaded i) (hx : x.uio.Fits) (hrw : x.uio.uioRw = .read) :
    Conforms q c W a (sfsIo i x) s := by
  obtain ⟨own, h, ht⟩ := h
  obtain ⟨sv, hsv⟩ := h.vnode hl
  exact (sfsIo_gets h hsv hx hrw).always fun _ s' h' => .same ⟨own, h.reads h'.1, ht⟩ hok

omit h in
theorem follows_write {x : Xfer} {k : Nat} (hi : i ≠ sfsRootLocation) (h : Rep c s (a.write i x k)) :
    Follows q c (fun j => j = i) a s := by
  have hput : VolInv q (a.put i x k) := hok.setView hi rfl
  refine ⟨_, h, ?_, fun _ j _ _ hj => .of_view ?_⟩
  · unfold Vol.write Vol.grow
    split
    · exact hput.setView hi rfl
    · exact hput
  · unfold Vol.write Vol.grow
    split
    · exact (view_setView_of_ne hj).trans (view_setView_of_ne hj)
    · exact view_setView_of_ne hj

theorem write_follows {x : Xfer} (hi : i ≠ sfsRootLocation) (hl : a.Loaded i) (hx : x.uio.Fits)
    (hrw : x.uio.uioRw = .write) :
    Conforms q c (fun j => j = i) a (sfsIo i x) s := by
  refine (sfsIo_write hl hx h hrw).always fun r s' h' => ?_
  cases h' with
  | all h₁ _ => exact follows_write hok hi h₁
  | upTo k h₁ _ _ => exact follows_write hok hi h₁

theorem truncate_follows {len : Int} (hi : i ≠ sfsRootLocation) (hl : a.Loaded i) (hlen : c ∨ len = 0) :
    Conforms q c (fun j => j = i) a (sfsTruncate i len) s := by
  obtain ⟨own, h, ht⟩ := h
  have hview : ∀ {s w}, Rep c s (a.setView i w) → w.linkcount = (a.view i).linkcount →
      Follows q c (fun j => j = i) a s :=
    fun h' hw => ⟨_, h', hok.setView hi hw, fun _ j _ _ hj => .of_view (view_setView_of_ne hj)⟩
  by_cases hc : c
  · refine (truncate_rep h hl len).mono (fun _ s' h' => ?_) (fun _ _ he => absurd hc he) fun _ hk => hk.elim
    obtain ⟨own', h', ht'⟩ := h'
    exact hview ⟨own', h', fun hc b hb => ht hc b (ht' b hb)⟩ rfl
  · obtain rfl := hlen.resolve_left hc
    refine (truncate_zero h hl).mono (fun _ s' h' => ?_) (fun e s' he => ?_) fun _ hk => hk.elim
    · obtain ⟨own', h', ht', -⟩ := h'
      exact hview ⟨own', h', fun hc b hb => ht hc b (ht' b hb)⟩ rfl
    · obtain ⟨-, -, w, -, hlink, h'⟩ := he
      exact hview h' hlink

/-! ## The file system -/

omit h in
theorem VolInv.positive : ∀ i v, a.counts i = some v → 0 < v.vnRefcount ∧ 0 ≤ v.vnOpencount := fun i v hv =>
  ⟨(hok.counts i v hv).1, (hok.counts i v hv).2.1⟩

theorem sync_follows : Conforms q c W a sfsSync s := by
  obtain ⟨own, h, ht⟩ := h
  exact (sync_spec h hok.positive).mono (fun _ s' h' => .same ⟨own, h'.1, ht⟩ hok)
    (fun _ _ he => he.elim) fun _ hk => hk.elim

theorem remount_follows (hf : s.faults = []) : Conforms q c W a remount s := by
  obtain ⟨own, h, ht⟩ := h
  have hcalm : RepAt True own s a := { h with calm := fun _ => hf }
  have hback : ∀ {s}, RepAt True own s a → Follows q c W a s := fun h' =>
    .same ⟨own, { h' with calm := fun _ => h'.calm trivial }, ht⟩ hok
  unfold Conforms
  simp only [remount, unmount, sfsUnmount, wp_bind]
  refine (sync_spec hcalm hok.positive).mono (fun _ s₁ h₁ => ?_) (fun _ _ he => he.elim) fun _ hk => hk.elim
  obtain ⟨hrep, hmap, hclean⟩ := h₁
  have hsuper := hrep.owned.super
  rw [wp_bind, wp_get]
  split
  · exact hback hrep
  · rename_i hnone
    have htable : a.table = [] := by
      rw [← hrep.table, Sfs.table, List.eq_nil_of_length_eq_zero (Nat.eq_zero_of_not_pos hnone)]
      rfl
    have hvol : { a with table := [] } = a := by rw [← htable]
    rw [wp_bind, wp_assertFs hrep.owned.superdirty, wp_assertFs hmap]
    refine (domount_spec (hrep.calm trivial) hrep.owned.sectors (by rw [hsuper]; exact hrep.owned.magic)
      (by rw [hsuper]; exact hrep.owned.fits.trans hrep.owned.device)
      (by rw [hsuper]; exact hrep.owned.fits.trans hrep.owned.small)).always fun _ s₂ h₂ => ?_
    rw [h₂]
    have hmounted := hrep.mounted hmap hclean rfl ⟨rfl, rfl, rfl⟩ (hrep.calm trivial)
    rw [hvol] at hmounted
    exact hback hmounted

end

/-! ## Every operation -/

def SfsOp.writes : SfsOp → Nat → Prop
  | .write ino _ _, i => i = ino
  | .truncate ino _, i => i = ino
  | _, _ => False

/-- A file is not cut in the middle on a device that may fail, and nothing
fails in a mount. -/
def SfsOp.Admitted (q c : Prop) (s : Sfs) : SfsOp → Prop
  | .link _ _ file => q → file ≠ sfsRootLocation
  | .truncate _ len => c ∨ len = 0
  | .remount => s.faults = []
  | _ => True

theorem Rep.loaded (h : Rep c s a) (hv : (s.vnode i).isSome = true) : a.Loaded i := by
  obtain ⟨own, h, -⟩ := h
  obtain ⟨sv, hsv⟩ := Option.isSome_iff_exists.mp hv
  exact h.loaded hsv

theorem Rep.counts_any {p : VnodeCounts → Prop} [DecidablePred p] (h : Rep c s a)
    (hv : (s.vnode i).any (fun sv => p sv.svV) = true) : ∃ v, a.counts i = some v ∧ p v := by
  obtain ⟨own, h, -⟩ := h
  obtain ⟨sv, hsv, hp⟩ := (Option.any_eq_true ..).mp hv
  exact ⟨sv.svV, by rw [h.counts, hsv]; rfl, of_decide_eq_true hp⟩

theorem SfsOp.follows {op : SfsOp} (h : Rep c s a) (hok : VolInv q a) (hcall : op.callable s = true)
    (had : op.Admitted q c s) :
    Conforms q c op.writes a op.run s := by
  have hl : ∀ i ∈ op.vnodes, a.Loaded i := by
    obtain ⟨own, h, -⟩ := h
    exact SfsOp.callable_loaded h hcall
  obtain ⟨-, harg⟩ := (Bool.and_eq_true ..).mp hcall
  cases op with
  | getroot => exact getroot_follows h hok
  | lookup dir path =>
    exact wp_bind.mpr (dirOp_follows (p := fun d => sfsLookup d path) h hok (hl dir List.mem_cons_self) fun hd =>
      lookup_follows h hok hd)
  | creat dir name excl =>
    exact wp_bind.mpr (dirOp_follows (p := fun d => sfsCreat d name excl) h hok (hl dir List.mem_cons_self) fun hd =>
      creat_follows h hok hd)
  | link dir name file =>
    exact dirOp_follows (p := fun d => sfsLink d name file) h hok (hl dir List.mem_cons_self) fun hd =>
      link_follows h hok hd (hl file (List.mem_cons_of_mem _ List.mem_cons_self)) had
  | remove dir name =>
    exact dirOp_follows (p := fun d => sfsRemove d name) h hok (hl dir List.mem_cons_self) fun hd =>
      remove_follows h hok hd
  | rename dir n1 n2 =>
    exact dirOp_follows (p := fun d => sfsRename d n1 n2) h hok (hl dir List.mem_cons_self) fun hd =>
      rename_follows h hok hd
  | incref ino =>
    obtain ⟨v, hv⟩ := hl ino List.mem_cons_self
    have hc := hok.counts ino v hv
    exact setCounts_follows h hok hv (by unfold vnodeIncref; dsimp only; omega)
  | decref ino =>
    obtain ⟨v, hv, ho⟩ := h.counts_any (p := fun v => v.vnOpencount < v.vnRefcount) harg
    exact (decref_follows h hok hv ho).mono (fun _ _ h' => h') (fun _ _ he => he) fun _ hk => hk.elim
  | incopen ino =>
    obtain ⟨v, hv, ho⟩ := h.counts_any (p := fun v => v.vnOpencount < v.vnRefcount) harg
    have hc := hok.counts ino v hv
    exact setCounts_follows h hok hv (by unfold vnodeIncopen; dsimp only; omega)
  | close ino =>
    obtain ⟨v, hv, ho⟩ := h.counts_any (p := fun v => 0 < v.vnOpencount) harg
    have hc := hok.counts ino v hv
    refine wp_bind.mpr ((decopen_rep h hok hv ho).mono (fun _ s₁ h₁ => ?_) (fun _ _ he => he) fun _ hk => hk.elim)
    have hok₁ := hok.setCounts (v := { v with vnOpencount := v.vnOpencount - 1 }) (by dsimp only; omega) ⟨v, hv⟩
    exact (decref_follows h₁ hok₁ (counts_setCounts_self ⟨v, hv⟩) (by dsimp only; omega)).mono (fun _ _ h' => h')
      (fun _ _ he => he) fun _ hk => hk.elim
  | read ino offset len =>
    obtain ⟨-, hlen⟩ := (Bool.and_eq_true ..).mp harg
    have hi := hl ino List.mem_cons_self
    refine wp_bind.mpr (wp_fileOp h hok hi (fun _ => .same h hok) fun _ => read_follows h hok hi ?_ rfl)
    exact ⟨⟨Nat.le_refl _, of_decide_eq_true hlen⟩, Int.natCast_nonneg _⟩
  | write ino offset data =>
    obtain ⟨-, hlen⟩ := (Bool.and_eq_true ..).mp harg
    have hi := hl ino List.mem_cons_self
    refine wp_bind.mpr (wp_fileOp h hok hi (fun _ => .same h hok) fun hroot => write_follows h hok hroot hi ?_ rfl)
    exact ⟨⟨Nat.le_refl _, of_decide_eq_true hlen⟩, Int.natCast_nonneg _⟩
  | truncate ino len =>
    have hi := hl ino List.mem_cons_self
    exact wp_fileOp h hok hi (fun _ => .same h hok) fun hroot => truncate_follows h hok hroot hi had
  | fsync ino =>
    exact (fsync_rep h hok (hl ino List.mem_cons_self)).mono (fun _ _ h' => .same h' hok) (fun _ _ h' => .same h' hok)
      fun _ hk => hk.elim
  | sync => exact sync_follows h hok
  | remount => exact remount_follows h hok had

theorem step_follows {op : SfsOp} (h : Rep c s a) (hok : VolInv q a) (had : op.Admitted q c s) :
    Post (sfsStep s op) (Follows q c op.writes a) (Stops q c) := by
  unfold sfsStep
  split
  · rename_i hcall
    have hrun := SfsOp.follows h hok hcall had
    unfold Conforms wp at hrun
    unfold exec
    split at hrun <;> simp [*, Post]
  · exact .same h hok

theorem Consistent.step {op : SfsOp} (h : Consistent q c s) (had : op.Admitted q c s) :
    Post (sfsStep s op) (Consistent q c) (Stops q c) := by
  obtain ⟨a, h, hok⟩ := h
  exact (step_follows h hok had).mono (fun s' h' => h'.imp fun _ h' => ⟨h'.1, h'.2.1⟩) fun _ hp => hp

theorem Consistent.run (h : Consistent q c s) (hr : Reach sfsStep (fun s op => op.Admitted q c s) s s') :
    Consistent q c s' := hr.invariant h fun _ _ _ h had hs => (h.step had).ok_of hs

/-! ## From a new volume on -/

def NewVolume (s : Sfs) : Prop :=
  ∃ stSize arg disk t, sfsBlocksize ≤ stSize ∧ mksfs stSize arg disk = .ok (some t.disk) ∧
    stSize / sfsBlocksize ≤ t.dBlocks ∧ t.dBlocksize = sfsBlocksize ∧ t.lost = [] ∧ t.faults = [] ∧
    sfsDomount t = .ok (.ok (), s)

theorem NewVolume.consistent (h : NewVolume s) (faults : List Bool) :
    Consistent q (faults = []) (s.withFaults faults) := by
  obtain ⟨stSize, arg, disk, t, hsize, hm, hd, hsec, hl, hf, hmount⟩ := h
  obtain ⟨he, own, hrep, ht, hok, -, -, hslot⟩ :=
    new_volume (Nat.div_pos hsize (by decide)) hm rfl hd hsec hl hf
  rw [he] at hmount
  cases hmount
  refine ⟨_, ⟨own, { hrep with owned := { hrep.owned with }, calm := id }, fun _ => ht⟩, hok, fun _ => ?_⟩
  rw [hok.linkcount _ hrep.owned.root, Vol.links, if_pos rfl, nlinks_eq_zero fun k e => ?_]
  exact absurd ((hslot k).symm.trans e) (by decide)

theorem NewVolume.calm (h : NewVolume s) : Consistent q True (s.withFaults []) := by
  have hnew := @NewVolume.consistent q s h []
  rwa [eq_self_iff_true] at hnew

def eightBlocks : Sfs :=
  { oneBlock 0 zeroBlock with
    dBlocks := 8
    disk := fun b =>
      if b = sfsSbLocation then superBlock { spMagic := sfsMagic, spNblocks := 8, spVolname := [97] }
      else if b = sfsRootLocation then inodeBlock rootInode
      else if b < sfsMapLocation + sfsBitblocks 8 then
        mapBlock (fun b => decide (b < 3 ∨ 8 ≤ b ∧ b < 4096)) (b - sfsMapLocation)
      else zeroBlock }

theorem mksfs_eightBlocks : mksfs 4096 ⟨[97], by decide⟩ (fun _ => zeroBlock) = .ok (some eightBlocks.disk) := by
  obtain ⟨g, hg⟩ :=
    doallocbits_succeeds (f := fun _ => false) ((usedBits_nodup_iff (n := 8) (by decide)).mpr (by decide))
      fun _ _ => rfl
  have he : g = fun b => decide (b < 3 ∨ 8 ≤ b ∧ b < 4096) := by
    funext b
    rw [Bool.eq_iff_iff, (doallocbits_ok hg).2.2 b, decide_eq_true_iff,
      show usedBits 8 = [0, 1] ++ (List.range 1).map (2 + ·) ++ (List.range 4088).map (8 + ·) from rfl,
      ← List.range'_eq_map_range, ← List.range'_eq_map_range]
    simp only [List.mem_append, List.mem_cons, List.not_mem_nil, List.mem_range'_1, Bool.false_eq_true, or_false]
    omega
  unfold mksfs
  rw [show volumeName ⟨[97], by decide⟩ = some ⟨[97], by decide⟩ from rfl]
  dsimp only
  rw [if_neg (by decide), if_neg (by decide), show 4096 / sfsBlocksize = 8 from rfl, hg, he]
  rfl

theorem eightBlocks_new : NewVolume eightBlocks.mounted :=
  ⟨_, _, _, eightBlocks, by decide, mksfs_eightBlocks, by decide, rfl, rfl, rfl,
    (new_volume (by decide) mksfs_eightBlocks rfl (by decide) rfl rfl rfl).1⟩

/-- Whatever reads and allocations fail after the mount, as long as no write is
lost, the blocks have one owner each, no name is there twice and every file has
as many links as names; if none fails, no block is lost either. -/
theorem volume_stays_consistent (h : NewVolume s) (faults : List Bool)
    (hr : Reach sfsStep (fun s op => op.Admitted q (faults = []) s) (s.withFaults faults) s') :
    Consistent q (faults = []) s' := (h.consistent faults).run hr

def twoCreats (faults : List Bool) : Except FsPanic Sfs :=
  [SfsOp.getroot, .creat sfsRootLocation ⟨[97], by decide⟩ true, .creat sfsRootLocation ⟨[98], by decide⟩ true].foldlM
    sfsStep (eightBlocks.mounted.withFaults faults)

theorem twoCreats_reach (faults : List Bool) (Q : Sfs → Bool) (h : (twoCreats faults).toOption.any Q = true) :
    ∃ s', Reach sfsStep (fun s op => op.Admitted True (faults = []) s) (eightBlocks.mounted.withFaults faults) s' ∧
      Q s' = true := by
  cases he : twoCreats faults with
  | error p =>
    rw [he] at h
    cases h
  | ok s' =>
    rw [he] at h
    refine ⟨s', .of_foldlM (fun s op hop => ?_) he, h⟩
    simp only [List.mem_cons, List.not_mem_nil, or_false] at hop
    rcases hop with rfl | rfl | rfl <;> trivial

/-- The first file cannot be loaded, for want of memory; the second is made. -/
theorem volume_stays_consistent_creat : ∃ s', (s'.view sfsRootLocation).size = dirSize ∧ (s'.view 4).linkcount = 1 ∧
    Consistent True False s' := by
  obtain ⟨s', hr, hQ⟩ := twoCreats_reach [false, false, false, false, true] (fun s' =>
    (s'.view sfsRootLocation).size == dirSize && (s'.view 4).linkcount == 1) (by decide +kernel)
  have hc := volume_stays_consistent eightBlocks_new _ hr
  rw [Bool.and_eq_true, beq_iff_eq, beq_iff_eq] at hQ
  exact ⟨s', hQ.1, hQ.2, by simpa using hc⟩

theorem Consistent.goes_on {op : SfsOp} (h : Consistent True True s) (hop : op.Admitted True True s) :
    ∃ s', sfsStep s op = .ok s' := by
  cases hs : sfsStep s op with
  | ok s' => exact ⟨s', rfl⟩
  | error p =>
    have hp := (h.step hop).error_of hs
    simp [Stops] at hp

/-- On a device that does not fail, nothing stops the machine as long as the
root is given no name. -/
theorem volume_never_stops (h : NewVolume s)
    (hr : Reach sfsStep (fun s op => op.Admitted True True s) (s.withFaults []) s') {op : SfsOp}
    (hop : op.Admitted True True s') : ∃ s'', sfsStep s' op = .ok s'' := by
  exact (h.calm.run hr).goes_on hop

theorem volume_never_stops_getroot : ∃ s', sfsStep (eightBlocks.mounted.withFaults []) .getroot = .ok s' :=
  volume_never_stops eightBlocks_new .refl (show SfsOp.Admitted True True _ .getroot from trivial)

/-! ## Every run on a device that does not fail -/

theorem Consistent.admitted (h : Consistent False True s) (op : SfsOp) : op.Admitted False True s := by
  obtain ⟨a, ⟨own, h, -⟩, -⟩ := h
  cases op with
  | link dir name file => exact False.elim
  | truncate ino len => exact Or.inl trivial
  | remount => exact h.calm trivial
  | _ => trivial

theorem Consistent.stops {op : SfsOp} {p : FsPanic} (h : Consistent False True s) (he : sfsStep s op = .error p) :
    p = .assertionFailed .isFile := by
  have hp := (h.step (h.admitted op)).error_of he
  simpa [Stops] using hp

theorem NewVolume.run (h : NewVolume s) (hr : Reach sfsStep (fun _ _ => True) (s.withFaults []) s') :
    Consistent False True s' := hr.invariant h.calm fun _ op _ h _ he => (h.step (h.admitted op)).ok_of he

def keepsBytes (s : Sfs) : Bool :=
  match sfsWrite 3 (writeXfer 0 [5, 6]) s with
  | .ok (.ok (none, _), u) => (u.vnode 3).isSome
  | _ => false

theorem twoFiles : ∃ s', Reach sfsStep (fun s op => op.Admitted True True s) (eightBlocks.mounted.withFaults []) s' ∧
    (s'.vnode 3).isSome = true ∧ (s'.inode 3).sfiLinkcount = 1 ∧ s'.sfsFreemap 3 = true ∧ 3 < s'.nbits ∧
    (∀ sv ∈ s'.sfsVnodes, sv.svI.sfiLinkcount ≠ 0) ∧
    ∃ y u, sfsWrite 3 (writeXfer 0 [5, 6]) s' = .ok (.ok (none, y), u) ∧ (u.vnode 3).isSome = true := by
  obtain ⟨s', hr, hQ⟩ := twoCreats_reach [] (fun s' => (s'.vnode 3).isSome &&
    (s'.inode 3).sfiLinkcount == 1 && s'.sfsFreemap 3 && decide (3 < s'.nbits) &&
    s'.sfsVnodes.all (·.svI.sfiLinkcount != 0) && keepsBytes s') (by decide +kernel)
  simp only [Bool.and_eq_true, beq_iff_eq, decide_eq_true_eq, List.all_eq_true, bne_iff_ne] at hQ
  obtain ⟨⟨⟨⟨⟨hv, hlink⟩, hmark⟩, hlt⟩, hnamed⟩, hw⟩ := hQ
  simp only at hr
  unfold keepsBytes at hw
  split at hw
  · exact ⟨s', hr, hv, hlink, hmark, hlt, hnamed, _, _, ‹_›, hw⟩
  · cases hw

theorem Consistent.vol (h : Consistent q c s) :
    ∃ own, RepAt c own s (s.vol own) ∧ (c → ∀ b, own b ≠ .taken) ∧ VolInv q (s.vol own) := by
  obtain ⟨a, ⟨own, h, ht⟩, hok⟩ := h
  have hview : (s.vol own).view sfsRootLocation = a.view sfsRootLocation := h.view _ ((h.live _).mpr h.owned.root)
  have hbytes := congrArg FileView.bytes hview
  have hcounts : (s.vol own).counts = a.counts := funext fun i => by
    unfold Vol.counts
    rw [← h.table]
    rfl
  have hnames : SameNames sfsRootLocation a (s.vol own) := ⟨hok.dir.congr_view hview, by rw [hview],
    fun k => by rw [slotIno_congr hbytes], fun k _ => by rw [slotName_congr hbytes]⟩
  refine ⟨own, ⟨h.owned, fun _ => Iff.rfl, fun _ _ => rfl, rfl, h.calm⟩, ht, hok.kept ⟨fun i => (h.live i).mp,
    fun i hi => Or.inl ((h.live i).mpr hi), fun i hi _ => h.view i hi, hnames, fun i v hv => ?_, fun i v hv => ?_⟩⟩
  · rwa [hcounts]
  · exact Or.inl (hcounts ▸ hv)

theorem VolOk.live_iff (hok : VolOk a) (h : RepAt c own s a) :
    a.live i ↔ i ≠ sfsNoino ∧ (0 < a.links i ∨ (s.vnode i).isSome = true) := by
  constructor
  · intro hl
    refine ⟨fun e => hok.noino (e ▸ hl), ?_⟩
    by_cases h0 : (a.view i).linkcount = 0
    · obtain ⟨sv, hv⟩ := h.vnode (hok.orphans i hl h0)
      exact Or.inr (by rw [hv]; rfl)
    · exact Or.inl (hok.linkcount i hl ▸ Nat.pos_of_ne_zero h0)
  · rintro ⟨h0, hlinks | hv⟩
    · by_cases hi : i = sfsRootLocation
      · exact hi ▸ (h.live _).mpr h.owned.root
      · rw [Vol.links, if_neg hi, Nat.add_zero] at hlinks
        by_contra hno
        refine Nat.ne_of_gt hlinks (nlinks_eq_zero fun k hk => hno ?_)
        exact hk ▸ hok.slots k (hk.symm ▸ h0)
    · obtain ⟨sv, hv⟩ := Option.isSome_iff_exists.mp hv
      exact h.live_of_loaded (h.loaded hv)

/-- Whatever is done to a new volume, each block has one owner: nothing is
marked but the blocks of the system, the inodes that have a name or are in
memory, and what they point to. If the machine stops, it is at the check for
regular files in `sfs_rename`. -/
theorem blocks_have_one_owner (h : NewVolume s) (hr : Reach sfsStep (fun _ _ => True) (s.withFaults []) s') :
    (∃ own, Owned own s' ∧ (∀ b, own b ≠ .taken) ∧
      ∀ i, own i = .inode ↔ i ≠ sfsNoino ∧ (0 < (s'.vol own).links i ∨ (s'.vnode i).isSome = true)) ∧
    ∀ op p, sfsStep s' op = .error p → p = .assertionFailed .isFile := by
  obtain ⟨own, hrep, ht, hok⟩ := (h.run hr).vol
  exact ⟨⟨own, hrep.owned, ht trivial, fun i => hok.live_iff hrep⟩, fun op p he => (h.run hr).stops he⟩

theorem blocks_have_one_owner_creat : ∃ s' own, Owned own s' ∧ own 3 = .inode := by
  obtain ⟨s', hr, hv, -⟩ := twoFiles
  obtain ⟨own, h, -, hi⟩ := (blocks_have_one_owner eightBlocks_new (hr.weaken fun _ _ _ => trivial)).1
  exact ⟨s', own, h, (hi 3).mpr ⟨by decide, Or.inr hv⟩⟩

/-- Whatever is done to a new volume, its directory has whole slots and no name
twice, each slot in use names an inode, and an inode is there with as many
links as names (one more for the root) just as long as it has one or is in
memory. -/
theorem links_are_counted (h : NewVolume s) (hr : Reach sfsStep (fun _ _ => True) (s.withFaults []) s') :
    (∃ own, Owned own s' ∧ DirOk (s'.vol own) sfsRootLocation ∧
      (∀ k, (s'.vol own).slotIno sfsRootLocation k ≠ sfsNoino →
        own ((s'.vol own).slotIno sfsRootLocation k) = .inode) ∧
      (∀ i, own i = .inode → (s'.inode i).sfiLinkcount = (s'.vol own).links i ∧ (s'.vol own).links i < 2 ^ 16) ∧
      ∀ i, i ≠ sfsNoino → (own i ≠ .inode ↔ (s'.vol own).links i = 0 ∧ s'.vnode i = none)) ∧
    ∀ op p, sfsStep s' op = .error p → p = .assertionFailed .isFile := by
  obtain ⟨own, hrep, -, hok⟩ := (h.run hr).vol
  refine ⟨⟨own, hrep.owned, hok.dir, hok.slots, fun i hi => ?_, fun i h0 => ?_⟩, fun op p he => (h.run hr).stops he⟩
  · have hlinks : (s'.inode i).sfiLinkcount = (s'.vol own).links i := hok.linkcount i hi
    exact ⟨hlinks, hlinks ▸ hrep.owned.linkcount i hi⟩
  · have hlive : own i = .inode ↔ _ := hok.live_iff hrep
    rw [Ne, hlive]
    simp [h0]

theorem links_are_counted_creat : ∃ s' own, Owned own s' ∧ own 3 = .inode ∧ (s'.vol own).links 3 = 1 := by
  obtain ⟨s', hr, hv, hlink, -⟩ := twoFiles
  obtain ⟨own, h, -, -, hlinks, hi⟩ := (links_are_counted eightBlocks_new (hr.weaken fun _ _ _ => trivial)).1
  have hown : own 3 = .inode := by
    by_contra hne
    rw [((hi 3 (by decide)).mp hne).2] at hv
    cases hv
  exact ⟨s', own, h, hown, (hlinks 3 hown).1.symm.trans hlink⟩

/-! ## What is written is read back -/

def FileView.Holds (w : FileView) (offset : Nat) (data : List UInt8) : Prop :=
  offset + data.length ≤ min sfsMaxbytes w.size ∧ w.size < 2 ^ 31 ∧
    ∀ k < data.length, w.bytes (offset + k) = data.getD k 0

variable {offset : Nat} {data : List UInt8}

theorem Rep.view_eq (h : Rep c s a) (hl : a.live i) : s.view i = a.view i := by
  obtain ⟨own, h, -⟩ := h
  exact h.view i hl

theorem holds_write {x : Xfer} {data : List UInt8} (hbase : x.uio.iovKbase = 0) (hbuf : ∀ k, x.buf k = data.getD k 0)
    (hn : x.uio.pos + data.length ≤ sfsMaxbytes) (hsize : (a.view i).size < 2 ^ 32) :
    ((a.write i x data.length).view i).Holds x.uio.pos data := by
  have hmax : sfsMaxbytes = 73216 := by decide
  have hput : ((a.put i x data.length).view i).size = (a.view i).size := by
    simp only [Vol.put, Vol.setBytes, Vol.setView, Function.update_self]
  have hgrown : x.uio.pos + data.length ≤ ((a.write i x data.length).view i).size ∧
      ((a.write i x data.length).view i).size < 2 ^ 31 := by
    unfold Vol.write Vol.grow
    rw [hput]
    split
    · rw [Vol.setSize, view_setView_self]
      dsimp only
      rw [u32_of_lt (by omega)]
      omega
    · rename_i hle
      rw [hput]
      unfold toOff at hle
      split at hle <;> omega
  refine ⟨by omega, hgrown.2, fun k hk => ?_⟩
  rw [Vol.write_bytes, copyBytes, if_pos (by omega), hbase, Nat.add_sub_cancel_left, Nat.zero_add, hbuf]

theorem write_holds {y : Xfer} (h : Rep True s a) (hok : VolInv q a) (hl : a.Loaded i)
    (hpos : 0 < data.length) (hlen : data.length < 2 ^ 32)
    (hw : sfsWrite i (writeXfer offset data) s = .ok (.ok (none, y), s')) :
    i ≠ sfsRootLocation ∧ Consistent q True s' ∧ (s'.view i).Holds offset data := by
  have hx : (writeXfer offset data).uio.Fits := ⟨⟨Nat.le_refl _, hlen⟩, Int.natCast_nonneg _⟩
  have hspec : wp (sfsWrite i (writeXfer offset data))
    (fun r t => r.1 = none → i ≠ sfsRootLocation ∧ Consistent q True t ∧
      (t.view i).Holds offset data) (fun _ _ => True) (fun _ => True) s := by
    refine wp_fileOp h hok hl (fun _ => trivial) fun hi => ?_
    refine (sfsIo_write hl hx h rfl).always fun r t ht hnone => ?_
    cases ht with
    | upTo => cases hnone
    | all h₁ hle =>
      have hlive := h₁.live_of_loaded (hl.congr (Vol.write_table ..))
      refine ⟨hi, (follows_write hok hi h₁).imp fun _ h' => ⟨h'.1, h'.2.1⟩, ?_⟩
      rw [h₁.view_eq hlive]
      refine holds_write rfl (fun _ => rfl) (hle.resolve_left (Nat.ne_of_gt hpos)) ?_
      obtain ⟨own, h, -⟩ := h
      rw [← h.inode_size hl]
      exact h.owned.size i ((h.live i).mp (h.live_of_loaded hl))
  exact hspec.ok hw rfl

theorem read_holds (h : Consistent q True s) (hl : (s.vnode i).isSome = true)
    (hi : i ≠ sfsRootLocation) (hpos : 0 < data.length) (hh : (s.view i).Holds offset data) :
    ∃ z t, sfsRead i (readXfer offset data.length) s = .ok (.ok (none, z), t) ∧ z.uio.uioResid = 0 ∧
      ∀ k < data.length, z.buf k = data.getD k 0 := by
  have hmax : sfsMaxbytes = 73216 := by decide
  obtain ⟨a, h, hok⟩ := h
  obtain ⟨hend, hsmall, hbytes⟩ := hh
  have hx : (readXfer offset data.length).uio.Fits :=
    ⟨⟨Nat.le_refl _, show data.length < _ by omega⟩, Int.natCast_nonneg _⟩
  have hspec : wp (sfsRead i (readXfer offset data.length))
      (fun r _ => r = (none, (readXfer offset data.length).get (s.byte i) data.length)) (fun _ _ => False)
      (fun _ => False) s := by
    refine wp_fileOp h hok (h.loaded hl) (fun e => absurd e hi) fun _ => ?_
    obtain ⟨own, h, -⟩ := h
    obtain ⟨sv, hsv⟩ := Option.isSome_iff_exists.mp hl
    have hsize : (s.view i).size = sv.svI.sfiSize := congrArg Inode.sfiSize (vnode_inode hsv)
    rw [hsize] at hend hsmall
    have hoff : toOff (u32 (offset + data.length)) = ((offset + data.length : Nat) : Int) := toOff_u32.mpr (by omega)
    have hsz : toOff sv.svI.sfiSize = sv.svI.sfiSize := if_pos hsmall
    unfold sfsIo
    rw [wp_bind, wp_getSv hsv]
    show wp (sfsIoRead i (readXfer offset data.length) (toOff sv.svI.sfiSize)) _ _ _ s
    unfold sfsIoRead
    rw [show (readXfer offset data.length).uio.uioOffset = (offset : Int) from rfl, Int.toNat_natCast,
      show (readXfer offset data.length).uio.uioResid = data.length from rfl, hoff, hsz]
    dsimp only
    rw [if_neg (by omega), if_neg (by omega)]
    refine (ioBody_read h hsv hx rfl hpos).imp fun r t => ?_
    rintro ⟨-, ⟨rfl, -⟩ | ⟨e, k, hk, rfl, ⟨-, he⟩ | ⟨hc, -⟩⟩⟩
    · rfl
    · have hlt : k < data.length := hk
      have hge : sfsMaxbytes ≤ offset + k := he
      omega
    · exact absurd trivial hc
  obtain ⟨r, t, he, rfl⟩ := hspec.returns
  refine ⟨_, t, he, Nat.sub_self _, fun k hk => ?_⟩
  rw [← hbytes k hk]
  show (if 0 ≤ k ∧ k < 0 + data.length then s.byte i (offset + (0 + (k - 0))) else _) = s.byte i (offset + k)
  rw [if_pos (by omega), Nat.zero_add, Nat.sub_zero]

theorem SameContents.holds (h : SameContents i a a') (hh : (a.view i).Holds offset data) :
    (a'.view i).Holds offset data := by
  unfold FileView.Holds
  rwa [h.1, h.2]

theorem holds_run {u : Sfs} (h : Consistent q True u) (hi : i ≠ sfsRootLocation)
    (hh : (u.view i).Holds offset data)
    (hr : Reach sfsStep (fun s op => op.Admitted q True s ∧ ¬ op.writes i ∧ (s.vnode i).isSome = true) u s) :
    Consistent q True s ∧ ((s.vnode i).isSome = true → (s.view i).Holds offset data) := by
  refine hr.invariant (I := fun s => Consistent q True s ∧ ((s.vnode i).isSome = true → (s.view i).Holds offset data))
    ⟨h, fun _ => hh⟩ fun s op s' hs had hstep => ⟨(hs.1.step had.1).ok_of hstep, fun hl' => ?_⟩
  obtain ⟨⟨a, h, hok⟩, hh⟩ := hs
  obtain ⟨had, hw, hl⟩ := had
  have hlive := h.live_of_loaded (h.loaded hl)
  obtain ⟨a', h', -, hsame⟩ := (step_follows h hok had).ok_of hstep
  rw [h'.view_eq (h'.live_of_loaded (h'.loaded hl'))]
  refine (hsame trivial i hlive hi hw).holds ?_
  rw [← h.view_eq hlive]
  exact hh hl

/-- What was written to a file that stays in memory is read, whatever else is
done to the volume in between. -/
theorem write_then_read {y : Xfer} {u : Sfs} (h : Consistent q True s)
    (hl : (s.vnode i).isSome = true) (hpos : 0 < data.length) (hlen : data.length < 2 ^ 32)
    (hw : sfsWrite i (writeXfer offset data) s = .ok (.ok (none, y), u))
    (hr : Reach sfsStep (fun s op => op.Admitted q True s ∧ ¬ op.writes i ∧ (s.vnode i).isSome = true) u s')
    (hl' : (s'.vnode i).isSome = true) :
    ∃ z t, sfsRead i (readXfer offset data.length) s' = .ok (.ok (none, z), t) ∧ z.uio.uioResid = 0 ∧
      ∀ k < data.length, z.buf k = data.getD k 0 := by
  obtain ⟨a, h, hok⟩ := h
  obtain ⟨hi, hc, hh⟩ := write_holds h hok (h.loaded hl) hpos hlen hw
  obtain ⟨hc', hh'⟩ := holds_run hc hi hh hr
  exact read_holds hc' hl' hi hpos (hh' hl')

theorem write_then_read_creat : ∃ s z t z' t', sfsWrite 3 (writeXfer 0 [5, 6]) s = .ok (.ok (none, z), t) ∧
    sfsRead 3 (readXfer 0 2) t = .ok (.ok (none, z'), t') ∧ z'.buf 1 = 6 := by
  obtain ⟨s, hr, hv, -, -, -, -, y, u, hw, hv'⟩ := twoFiles
  obtain ⟨z, t, hread, -, hbuf⟩ := write_then_read (eightBlocks_new.calm.run hr) hv (by decide) (by decide) hw .refl hv'
  exact ⟨s, y, u, z, t, hw, hread, hbuf 1 (by decide)⟩

/-! ## What is synced survives -/

theorem Owned.nblocks_le (h : Owned own s) (h' : Owned own t) : t.nblocks ≤ s.nblocks := by
  have hmap : ∀ n, sfsBitblocks n = (n + 4095) / 4096 := fun n => Nat.mul_div_cancel _ (by decide)
  have hfits := h.fits
  have hfits' := h'.fits
  rw [hmap] at hfits hfits'
  unfold sfsMapLocation at hfits hfits'
  by_contra hlt
  have hlast := (h'.system (t.nblocks - 1)).mp ((h.system _).mpr (Or.inr (Or.inr (by omega))))
  unfold SystemBlock sfsSbLocation sfsMapLocation at hlast
  rw [hmap] at hlast
  omega

theorem Owned.ptr_eq {n : Nat} (h : Owned own s) (h' : Owned own t) (hi : own i = .inode) (hn : n < sfsMaxblocks) :
    t.ptr i n = s.ptr i n := by
  by_cases hp : s.ptr i n = 0
  · by_contra hne
    have hown := h'.ptr_own hi hn fun e => hne (e.trans hp.symm)
    exact hne ((h.data _ i n).mp hown).2.2.1.symm
  · exact ((h'.data _ i n).mp (h.ptr_own hi hn hp)).2.2.1

theorem syncVnodes_clean {l : List SfsVnode} (h : RepAt c own s a) (hok : VolInv q a)
    (hl : ∀ sv ∈ l, sv ∈ s.sfsVnodes ∧ sv.svDirty = false) :
    wp (syncVnodes l) (fun _ t => t = s) (fun _ _ => False) (fun _ => False) s := by
  induction l with
  | nil => rfl
  | cons sv l ih =>
    obtain ⟨hmem, hd⟩ := hl sv List.mem_cons_self
    have hv := h.owned.vnode_of_mem hmem
    have hc := hok.positive sv.svIno sv.svV (by rw [h.counts, hv]; rfl)
    simp only [syncVnodes, vopFsync, wp_bind, wp_attempt]
    refine wp_vopCheck hv hc.1 hc.2 _ ?_
    unfold sfsSyncInode
    rw [wp_bind, wp_getSv hv, hd]
    exact ih fun sv hsv => hl sv (List.mem_cons_of_mem _ hsv)

theorem sync_clean (h : RepAt c own s a) (hok : VolInv q a) (hmap : s.sfsFreemapdirty = false)
    (hclean : ∀ sv ∈ s.sfsVnodes, sv.svDirty = false) : sfsSync s = .ok (.ok (), s) := by
  have hspec : wp sfsSync (fun _ t => t = s) (fun _ _ => False) (fun _ => False) s := by
    simp only [sfsSync, syncFreemap, syncSuper, wp_bind, wp_get]
    refine wp.imp (syncVnodes_clean h hok fun sv hsv => ⟨hsv, hclean sv hsv⟩) fun _ t ht => ?_
    simp [ht, hmap, h.owned.superdirty, wp_bind, wp_get, wp_pure]
  obtain ⟨_, t, he, rfl⟩ := hspec.returns
  exact he

/-- The disk of `u`, with anything in memory. -/
structure SameDisk (u t : Sfs) : Prop where
  disk : t.disk = u.disk
  device : t.dBlocks = u.dBlocks ∧ t.dBlocksize = u.dBlocksize ∧ t.lost = u.lost
  calm : t.faults = []

theorem Consistent.synced (h : Consistent q True s) : ∃ u, sfsSync s = .ok (.ok (), u) ∧
    sfsSync u = .ok (.ok (), u) ∧ ∀ t, SameDisk u t → ∃ w own, sfsDomount t = .ok (.ok (), w) ∧
      Owned own s ∧ Owned own w ∧ w.nblocks = s.nblocks ∧ (∀ b < s.nbits, w.sfsFreemap b = s.sfsFreemap b) ∧
      (∀ i, own i = .inode → w.view i = s.view i ∧ ∀ n < sfsMaxblocks, w.ptr i n = s.ptr i n) ∧
      ((∀ sv ∈ s.sfsVnodes, sv.svI.sfiLinkcount ≠ 0) → Consistent q True w) := by
  obtain ⟨a, ⟨own, h, ht⟩, hok⟩ := h
  obtain ⟨_, u, hsync, hrep, hmap, hclean⟩ := ((sync_spec h hok.positive).mono (fun _ _ h' => h')
    (fun _ _ he => he.elim) fun _ hk => hk).returns
  refine ⟨u, hsync, sync_clean hrep hok hmap hclean, fun t hsame => ?_⟩
  obtain ⟨htd, htb, htf⟩ := hsame
  have hsuper : readSuper (t.disk sfsSbLocation) = u.sfsSuper := by rw [htd, hrep.owned.super]
  obtain ⟨_, w, hmount, rfl⟩ := (domount_spec htf (htb.2.1.trans hrep.owned.sectors)
    (by rw [hsuper]; exact hrep.owned.magic) (by rw [hsuper, htb.1]; exact hrep.owned.fits.trans hrep.owned.device)
    (by rw [hsuper]; exact hrep.owned.fits.trans hrep.owned.small)).returns
  have hm := hrep.mounted hmap hclean htd htb htf
  have hnb : t.mounted.nblocks = s.nblocks :=
    Nat.le_antisymm (h.owned.nblocks_le hm.owned) (hm.owned.nblocks_le h.owned)
  have hview : ∀ i, own i = .inode → s.view i = a.view i := fun i hi => h.view i ((h.live i).mpr hi)
  refine ⟨t.mounted, own, hmount, h.owned, hm.owned, hnb, fun b hb => ?_, fun i hi => ?_, fun hlinked => ?_⟩
  · have hb' : b < t.mounted.nbits := by unfold Sfs.nbits; rwa [hnb]
    exact Bool.eq_iff_iff.mpr ((hm.owned.marked b hb').trans (h.owned.marked b hb).symm)
  · exact ⟨(hm.view i ((hm.live i).mpr hi)).trans (hview i hi).symm, fun n hn => h.owned.ptr_eq hm.owned hi hn⟩
  · refine ⟨_, ⟨own, hm, ht⟩, ⟨fun _ _ hv => (by cases hv), hok.dir.congr_view rfl, hok.slots, hok.linkcount,
      fun i hi h0 => ?_, hok.noino⟩, hok.unrooted⟩
    obtain ⟨sv, hv⟩ := h.vnode (hok.orphans i hi h0)
    refine absurd ?_ (hlinked sv (Table.get_mem hv))
    rw [← vnode_inode hv]
    exact (congrArg FileView.linkcount (h.view i hi)).trans h0

theorem keeps_unmount : Keeps Eq sfsUnmount := by
  have htrans : ∀ s s' s'' : Sfs, s = s' → s' = s'' → s = s'' := fun _ _ _ => Eq.trans
  refine .bind htrans (.get Eq.refl) fun s => ?_
  refine .ite (.bind htrans (.throw Eq.refl _) fun _ => ?_) ?_
  all_goals exact .bind htrans (.require Eq.refl _ _) fun _ => .require Eq.refl _ _

/-- Whatever has been done to a new volume, what `sfs_sync` or an unmount has
written is mounted again as the same volume, whatever becomes of the memory. -/
theorem synced_volume_mounts (h : NewVolume t) (hr : Reach sfsStep (fun _ _ => True) (t.withFaults []) s) :
    ∃ u, sfsSync s = .ok (.ok (), u) ∧ sfsSync u = .ok (.ok (), u) ∧ (∀ v, unmount s = .ok (.ok (), v) → v = u) ∧
      ∀ t, SameDisk u t → ∃ w own, sfsDomount t = .ok (.ok (), w) ∧ Owned own s ∧ Owned own w ∧
        w.nblocks = s.nblocks ∧ (∀ b < s.nbits, w.sfsFreemap b = s.sfsFreemap b) ∧
        (∀ name, (w.vol own).find sfsRootLocation name = (s.vol own).find sfsRootLocation name) ∧
        ∀ i, own i = .inode → w.view i = s.view i ∧ ∀ n < sfsMaxblocks, w.ptr i n = s.ptr i n := by
  obtain ⟨u, hsync, hagain, hmount⟩ := (h.run hr).synced
  refine ⟨u, hsync, hagain, fun v hv => ?_, fun t hsame => ?_⟩
  · exact ((keeps_unmount u).ok ((bind_ok hsync).symm.trans hv)).symm
  · obtain ⟨w, own, hw, ho, ho', hnb, hmap, hview, -⟩ := hmount t hsame
    exact ⟨w, own, hw, ho, ho', hnb, hmap, fun name => find_congr (hview _ ho.root).1, hview⟩

theorem synced_volume_mounts_creat : ∃ s u w, sfsSync s = .ok (.ok (), u) ∧
    sfsDomount { u.device with faults := [] } = .ok (.ok (), w) ∧ w.sfsFreemap 3 = true := by
  obtain ⟨s, hr, -, -, hmark, hlt, -⟩ := twoFiles
  obtain ⟨u, hu, -, -, hmount⟩ := synced_volume_mounts eightBlocks_new (hr.weaken fun _ _ _ => trivial)
  obtain ⟨w, own, hw, -, -, -, hmap, -⟩ := hmount { u.device with faults := [] } ⟨rfl, ⟨rfl, rfl, rfl⟩, rfl⟩
  exact ⟨s, u, w, hu, hw, (hmap 3 hlt).trans hmark⟩

/-- Volumes that were synced before the memory was lost, with no file in it
without a name, are mounted again and go on without stopping. -/
theorem synced_volume_goes_on (h : Consistent True True s)
    (hnamed : ∀ sv ∈ s.sfsVnodes, sv.svI.sfiLinkcount ≠ 0) :
    ∃ u, sfsSync s = .ok (.ok (), u) ∧ ∀ t, SameDisk u t → ∃ w, sfsDomount t = .ok (.ok (), w) ∧
      ∀ w', Reach sfsStep (fun s op => op.Admitted True True s) w w' →
        ∀ op, op.Admitted True True w' → ∃ w'', sfsStep w' op = .ok w'' := by
  obtain ⟨u, hsync, -, hmount⟩ := h.synced
  refine ⟨u, hsync, fun t hsame => ?_⟩
  obtain ⟨w, own, hw, -, -, -, -, -, hc⟩ := hmount t hsame
  exact ⟨w, hw, fun w' hr op hop => ((hc hnamed).run hr).goes_on hop⟩

theorem synced_volume_goes_on_creat : ∃ s u w w', sfsSync s = .ok (.ok (), u) ∧
    sfsDomount { u.device with faults := [] } = .ok (.ok (), w) ∧ sfsStep w .getroot = .ok w' := by
  obtain ⟨s, hr, -, -, -, -, hnamed, -⟩ := twoFiles
  obtain ⟨u, hu, hmount⟩ := synced_volume_goes_on (eightBlocks_new.calm.run hr) hnamed
  obtain ⟨w, hw, hrun⟩ := hmount { u.device with faults := [] } ⟨rfl, ⟨rfl, rfl, rfl⟩, rfl⟩
  obtain ⟨w', hstep⟩ := hrun w .refl .getroot trivial
  exact ⟨s, u, w, w', hu, hw, hstep⟩

end

end Os161
