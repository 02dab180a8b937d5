import Os161.NameSound
import Os161.Vfspath
import Os161.VfslistSound

/-!
# References of path operations

An operation on a vnode changes the count of that vnode and of no other. The
root of an SFS volume may have to be brought into memory for it.
-/

namespace Os161

open Proc

/-- One more reference to `x`. Without any so far, `x` comes into memory. -/
def take {α : Type} [DecidableEq α] (f : α → Option VnodeCounts) (x : α) : α → Option VnodeCounts :=
  Function.update f x (some ((f x).elim vnodeInit vnodeIncref))

def FileSystem.counts : FileSystem → Nat → Option VnodeCounts
  | .sfs v, i => (v.vnode i).map SfsVnode.svV
  | .emufs e, i => (e.efVnodes i).map EmufsVnode.evV

def Vfs.counts (s : Vfs) : Node → Option VnodeCounts
  | .file fs i => (s.fs fs).counts i
  | .device d => some (s.devCounts d)

def FileSystem.Ok (c : Prop) : FileSystem → Prop
  | .sfs v => ∃ a, Rep c v a
  | .emufs e => ∃ ev, e.efVnodes emuRoothandle = some ev

def VfsEnv.mounted (f : VfsEnv) (fs : Nat) : Prop := ∃ kd ∈ f.knowndevs, ∃ x, kd.kdFs = some x ∧ x.id = fs

def VfsEnv.holds (f : VfsEnv) : List Node := f.tCwd.toList ++ f.bootfsVnode.toList

/-- The mounted volumes are in order, with no device failure and no lack of
memory to come if `c`. The current directory and the boot file system's vnode are
files of mounted file systems, held by references of their own. -/
structure VfsOk (c : Prop) (s : Vfs) : Prop where
  devs : ∀ kd ∈ s.knowndevs, kd.Ok
  fs : ∀ fs, s.mounted fs → (s.fs fs).Ok c
  dirs : ∀ vn ∈ s.holds, ∃ fs i v, vn = .file fs i ∧ s.mounted fs ∧ (s.fs fs).counts i = some v ∧ 0 < v.vnRefcount

structure FsTakes (c : Prop) (x : FileSystem) (i : Nat) (x' : FileSystem) : Prop where
  ok : x'.Ok c
  root : x'.root = x.root
  counts : x'.counts = take x.counts i

def OneMore (s : Vfs) (vn : Node) (s' : Vfs) : Prop := s'.toVfsEnv = s.toVfsEnv ∧ s'.counts = take s.counts vn

section
variable {c : Prop} {s : Vfs} {x x' : FileSystem} {a : Vol} {w w' : Sfs} {e : Emufs} {ev : EmufsVnode} {v : VnodeCounts}
  {vn : Node} {fs i r d : Nat} {name path : CString} {E : Errno → Vfs → Prop} {K : FsPanic → Prop}

/-! ## Counts -/

theorem take_some {α : Type} [DecidableEq α] {f : α → Option VnodeCounts} {y : α} (hv : f y = some v) :
    take f y = Function.update f y (some (vnodeIncref v)) := by
  unfold take
  rw [hv]
  rfl

theorem take_positive {α : Type} [DecidableEq α] {f : α → Option VnodeCounts} {y z : α} (hv : f y = some v)
    (hpos : 0 < v.vnRefcount) : ∃ u, take f z y = some u ∧ 0 < u.vnRefcount := by
  by_cases hy : y = z
  · subst hy
    rw [take_some hv, Function.update_self]
    exact ⟨_, rfl, Int.lt_trans hpos (Int.lt_succ _)⟩
  · rw [take, Function.update_of_ne hy]
    exact ⟨v, hv, hpos⟩

/-- The reference to the current directory is given back after that to the root was taken. -/
theorem take_back {f : Nat → Option VnodeCounts} (hv : f i = some v) (hpos : 0 < v.vnRefcount) :
    ∃ u, take (take f i) r i = some u ∧ 1 < u.vnRefcount ∧
      Function.update (take (take f i) r) i (some { u with vnRefcount := u.vnRefcount - 1 }) = take f r := by
  have hback : ∀ u : VnodeCounts, { vnodeIncref u with vnRefcount := (vnodeIncref u).vnRefcount - 1 } = u := fun u =>
    VnodeCounts.ext (Int.add_sub_cancel ..) rfl
  rw [take_some hv]
  by_cases hr : r = i
  · subst hr
    rw [take_some (Function.update_self ..), Function.update_self]
    refine ⟨_, rfl, by unfold vnodeIncref; dsimp only; omega, ?_⟩
    rw [hback, Function.update_idem, Function.update_idem, take_some hv]
  · refine ⟨vnodeIncref v, ?_, by unfold vnodeIncref; dsimp only; omega, ?_⟩
    · rw [take, Function.update_of_ne (Ne.symm hr), Function.update_self]
    · rw [hback, take, Function.update_of_ne hr, Function.update_comm hr, Function.update_idem, ← hv,
        Function.update_eq_self]
      rfl

theorem counts_load_eq : (a.load i).counts = take a.counts i := by
  funext j
  by_cases hj : j = i
  · subst hj
    rw [take, Function.update_self]
    cases hv : a.counts j with
    | none => exact counts_load_none hv
    | some v => exact counts_load_some hv
  · rw [take, Function.update_of_ne hj, counts_load_of_ne hj]

theorem Rep.counts_eq (h : Rep c w a) : (FileSystem.sfs w).counts = a.counts := by
  obtain ⟨own, h, -⟩ := h
  exact funext fun i => (h.counts i).symm

theorem FsTakes.sfs (h : Rep c w a) (h' : Rep c w' (a.load i)) : FsTakes c (.sfs w) i (.sfs w') where
  ok := ⟨_, h'⟩
  root := rfl
  counts := by rw [h'.counts_eq, h.counts_eq, counts_load_eq]

theorem emufs_setEv (hr : ∃ ev, e.efVnodes emuRoothandle = some ev) :
    (FileSystem.emufs { e with efVnodes := Function.update e.efVnodes i (some ev) }).Ok c ∧
      (FileSystem.emufs { e with efVnodes := Function.update e.efVnodes i (some ev) }).counts =
        Function.update (FileSystem.emufs e).counts i (some ev.evV) := by
  constructor
  · by_cases hi : emuRoothandle = i
    · refine ⟨ev, ?_⟩
      dsimp only
      rw [hi, Function.update_self]
    · obtain ⟨rv, hrv⟩ := hr
      exact ⟨rv, (Function.update_of_ne hi ..).trans hrv⟩
  · funext j
    by_cases hj : j = i
    · subst hj
      simp [FileSystem.counts]
    · simp [FileSystem.counts, hj]

/-! ## Operations of one file system -/

theorem wp_onFs {α : Type} {p : SfsM α} {q : EmufsM α} {Q : α → Vfs → Prop}
    (hp : ∀ w, s.fs fs = .sfs w →
      wp p (fun a w' => Q a (s.setFs fs (.sfs w'))) (fun e w' => E e (s.setFs fs (.sfs w'))) K w)
    (hq : ∀ e, s.fs fs = .emufs e →
      wp q (fun a e' => Q a (s.setFs fs (.emufs e'))) (fun err e' => E err (s.setFs fs (.emufs e'))) K e) :
    wp (onFs fs p q) Q E K s := by
  unfold onFs
  rw [wp_bind, wp_get]
  cases hx : s.fs fs with
  | sfs w =>
    rw [wp_zoom]
    exact hp w hx
  | emufs e =>
    rw [wp_zoom]
    exact hq e hx

theorem wp_getEv {Q : EmufsVnode → Emufs → Prop} {E : Errno → Emufs → Prop} (hev : e.efVnodes i = some ev) :
    wp (getEv i) Q E K e ↔ Q ev e := by
  simp only [getEv, wp_bind, wp_get, hev, wp_pure]

theorem emufsIncref_takes {E : Errno → Emufs → Prop} (hx : (FileSystem.emufs e).Ok c)
    (hv : (FileSystem.emufs e).counts i = some v) :
    wp (emufsIncref i) (fun _ e' => FsTakes c (.emufs e) i (.emufs e')) E K e := by
  obtain ⟨ev, hev, rfl⟩ := Option.map_eq_some_iff.mp hv
  unfold emufsIncref setEv
  rw [wp_bind, wp_getEv hev, wp_modify]
  obtain ⟨hok, hcounts⟩ := @emufs_setEv c e { ev with evV := vnodeIncref ev.evV } i hx
  exact ⟨hok, rfl, hcounts.trans (take_some hv).symm⟩

theorem incref_takes (hx : (s.fs fs).Ok c) (hv : (s.fs fs).counts i = some v) :
    wp (onFs fs (vopIncref i) (emufsIncref i)) (fun _ s' => ∃ x, FsTakes c (s.fs fs) i x ∧
      s' = s.setFs fs x) E K s := by
  refine wp_onFs (fun w hw => ?_) fun e he => ?_
  · rw [hw] at hx hv ⊢
    obtain ⟨a, h⟩ := hx
    have hl : a.counts i = some v := h.counts_eq ▸ hv
    obtain ⟨own, h', ht⟩ := h
    obtain ⟨sv, hsv, rfl⟩ := h'.counts_vnode hl
    unfold vopIncref
    rw [wp_bind, wp_getSv hsv, wp_modifySv]
    refine ⟨_, .sfs ⟨own, h', ht⟩ ⟨own, ?_, ht⟩, rfl⟩
    unfold Vol.load
    rw [hl]
    exact h'.modifyCounts hsv
  · rw [he] at hx hv ⊢
    exact (emufsIncref_takes hx hv).imp fun _ _ h => ⟨_, h, rfl⟩

theorem fsopGetroot_takes (hx : (s.fs fs).Ok c) :
    wp (fsopGetroot fs)
      (fun vn s' => vn = .file fs (s.fs fs).root ∧ ∃ x, FsTakes c (s.fs fs) (s.fs fs).root x ∧ s' = s.setFs fs x) E
      (fun p => p = .cannotLoadRoot ∧ ¬ c ∧ (s.fs fs).counts (s.fs fs).root = none) s := by
  unfold fsopGetroot
  rw [wp_bind, wp_get, wp_bind]
  refine wp_onFs (fun w hw => ?_) fun e he => ?_
  · rw [hw] at hx ⊢
    obtain ⟨a, h⟩ := hx
    unfold sfsGetroot
    rw [wp_bind, wp_attempt]
    refine (loadvnode_spec h h.root_live).mono (fun _ w' h' => ⟨rfl, _, .sfs h h', rfl⟩)
      (fun _ _ hf => ⟨rfl, hf.2.1, ?_⟩) fun _ hk => hk.elim
    rw [h.counts_eq]
    exact hf.1
  · rw [he] at hx ⊢
    have hroot := hx
    obtain ⟨ev, hev⟩ := hroot
    exact (emufsIncref_takes hx (congrArg (Option.map EmufsVnode.evV) hev)).imp fun _ _ h => ⟨rfl, _, h, rfl⟩

theorem decref_drops (hx : (s.fs fs).Ok c) (hv : (s.fs fs).counts i = some v) (h1 : 1 < v.vnRefcount) :
    wp (onFs fs (decref i) (emufsDecref i))
      (fun _ s' => ∃ x, (x.Ok c ∧ x.root = (s.fs fs).root ∧
        x.counts = Function.update (s.fs fs).counts i (some { v with vnRefcount := v.vnRefcount - 1 })) ∧
        s' = s.setFs fs x)
      E (fun _ => False) s := by
  have hdec : vnodeDecref v = .ok ({ v with vnRefcount := v.vnRefcount - 1 }, false) := by
    unfold vnodeDecref
    rw [if_neg (by omega), if_pos h1]
  refine wp_onFs (fun w hw => ?_) fun e he => ?_
  · rw [hw] at hx hv ⊢
    obtain ⟨a, h⟩ := hx
    have hl : a.counts i = some v := h.counts_eq ▸ hv
    refine (decref_spec h hl (by omega) (by omega) (by omega)).imp fun _ w' hd => ?_
    rcases hd with hd | ⟨hone, -⟩
    · refine ⟨.sfs w', ⟨⟨_, hd⟩, rfl, ?_⟩, rfl⟩
      rw [hd.counts_eq, h.counts_eq]
      unfold Vol.drop
      rw [hl]
      dsimp only
      rw [if_pos h1]
      funext j
      by_cases hj : j = i
      · rw [hj, Function.update_self, counts_setCounts_self ⟨v, hl⟩]
      · rw [Function.update_of_ne hj, counts_setCounts_of_ne hj]
    · omega
  · rw [he] at hx hv ⊢
    obtain ⟨ev, hev, rfl⟩ := Option.map_eq_some_iff.mp hv
    unfold emufsDecref setEv
    rw [wp_bind, wp_getEv hev, hdec, wp_bind, liftVfs, wp_pure]
    dsimp only
    rw [wp_bind, wp_modify, if_neg Bool.false_ne_true, wp_pure]
    obtain ⟨hok, hcounts⟩ :=
      @emufs_setEv c e { ev with evV := { ev.evV with vnRefcount := ev.evV.vnRefcount - 1 } } i hx
    exact ⟨_, ⟨hok, rfl, hcounts⟩, rfl⟩

/-! ## The file systems together -/

theorem VfsOk.takes (h : VfsOk c s) (ht : FsTakes c (s.fs fs) i x) :
    OneMore s (.file fs i) (s.setFs fs x) ∧ VfsOk c (s.setFs fs x) := by
  have hone : (s.setFs fs x).counts = take s.counts (.file fs i) := by
    funext vn
    cases vn with
    | device d => exact (Function.update_of_ne (Node.noConfusion ·) ..).symm
    | file fs' j =>
      by_cases hfs : fs' = fs
      · subst hfs
        simp only [Vfs.counts, Vfs.setFs, Function.update_self, ht.counts, take]
        by_cases hj : j = i
        · rw [hj, Function.update_self, Function.update_self]
        · rw [Function.update_of_ne hj, Function.update_of_ne (by simp [hj])]
          rfl
      · simp only [Vfs.counts, Vfs.setFs, Function.update_of_ne hfs, take]
        rw [Function.update_of_ne (by simp [hfs])]
        rfl
  refine ⟨⟨rfl, hone⟩, h.devs, fun fs' hm => ?_, fun vn hvn => ?_⟩
  · by_cases hfs : fs' = fs
    · subst hfs
      simp only [Vfs.setFs, Function.update_self]
      exact ht.ok
    · simp only [Vfs.setFs, Function.update_of_ne hfs]
      exact h.fs fs' hm
  · obtain ⟨fs', j, v, rfl, hm, hv, hpos⟩ := h.dirs vn hvn
    obtain ⟨u, hu, hpos'⟩ := take_positive (f := s.counts) (y := .file fs' j) (z := .file fs i) hv hpos
    exact ⟨fs', j, u, rfl, hm, (congrFun hone _).trans hu, hpos'⟩

theorem VfsOk.takesDev (h : VfsOk c s) :
    OneMore s (.device d) { s with devCounts := Function.update s.devCounts d (vnodeIncref (s.devCounts d)) } ∧
      VfsOk c { s with devCounts := Function.update s.devCounts d (vnodeIncref (s.devCounts d)) } := by
  refine ⟨⟨rfl, ?_⟩, h.devs, h.fs, h.dirs⟩
  funext vn
  cases vn with
  | file fs i => exact (Function.update_of_ne (Node.noConfusion ·) ..).symm
  | device d' =>
    by_cases hd : d' = d
    · subst hd
      simp [Vfs.counts, take]
    · simp [Vfs.counts, take, hd]

theorem VfsOk.incref (h : VfsOk c s) (hvn : vn ∈ s.holds) :
    wp (nodeIncref vn) (fun _ s' => OneMore s vn s' ∧ VfsOk c s') E K s := by
  obtain ⟨fs, i, v, rfl, hm, hv, -⟩ := h.dirs vn hvn
  refine (incref_takes (h.fs fs hm) hv).imp fun _ s' hs => ?_
  obtain ⟨x, ht, rfl⟩ := hs
  exact h.takes ht

theorem mem_holds_cwd (h : s.tCwd = some vn) : vn ∈ s.holds := by
  unfold VfsEnv.holds
  rw [h]
  exact List.mem_cons_self

theorem mem_holds_bootfs (h : s.bootfsVnode = some vn) : vn ∈ s.holds := by
  unfold VfsEnv.holds
  rw [h]
  exact List.mem_append_right _ (List.mem_singleton_self vn)

/-! ## Where a path begins -/

def Vfs.rootNode (s : Vfs) : Root → Node
  | .fs x => .file x.id (s.fs x.id).root
  | .device d => .device d

def Vfs.StartsAt (s : Vfs) : PathStart → Node → Prop
  | .cwd, vn => s.tCwd = some vn
  | .device name, vn => ∃ r, vfsGetroot s.knowndevs name.name = .ok (.ok r) ∧ vn = s.rootNode r
  | .bootfs, vn => s.bootfsVnode = some vn
  | .current, vn => ∃ fs i, s.tCwd = some (.file fs i) ∧ vn = .file fs (s.fs fs).root

def VfsEnv.Missing (f : VfsEnv) : PathStart → Errno → Prop
  | .cwd, e | .current, e => f.tCwd = none ∧ e = .enoent
  | .device name, e => vfsGetroot f.knowndevs name.name = .ok (.error e)
  | .bootfs, e => f.bootfsVnode = none ∧ e = .enoent

/-- The start is there but not in memory, and could not be loaded. -/
def Vfs.Unloaded (c : Prop) (s : Vfs) (start : PathStart) (p : FsPanic) : Prop :=
  p = .cannotLoadRoot ∧ ¬ c ∧ ∃ vn, s.StartsAt start vn ∧ s.counts vn = none

theorem getcurdir_at (h : VfsOk c s) :
    wp vfsGetcurdir (fun vn s' => s.tCwd = some vn ∧ OneMore s vn s' ∧ VfsOk c s')
      (fun e s' => (s.tCwd = none ∧ e = .enoent) ∧ s' = s) K s := by
  unfold vfsGetcurdir
  rw [wp_bind, wp_get]
  cases hcwd : s.tCwd with
  | none => exact ⟨⟨rfl, rfl⟩, rfl⟩
  | some vn =>
    exact (h.incref (mem_holds_cwd hcwd)).bind (fun _ s' h' => ⟨rfl, h'⟩) fun _ _ he => he

theorem VfsOk.getroot (h : VfsOk c s) (name : String) : ∃ r, vfsGetroot s.knowndevs name = .ok r := by
  rw [vfsGetroot_find]
  cases hfind : s.knowndevs.find? (fun kd => decide (name ∈ kd.names)) with
  | none => exact ⟨_, rfl⟩
  | some kd => exact (h.devs kd (List.mem_of_find?_eq_some hfind)).vfsGetroot name

theorem VfsEnv.mounted_getroot (f : VfsEnv) {n : String} {y : Fs} (h : vfsGetroot f.knowndevs n = .ok (.ok (.fs y))) :
    f.mounted y.id := by
  rw [vfsGetroot_find] at h
  cases hfind : f.knowndevs.find? (fun kd => decide (n ∈ kd.names)) with
  | none =>
    rw [hfind] at h
    cases h
  | some kd =>
    rw [hfind] at h
    obtain ⟨z, hz, he⟩ | he := vfsGetroot_single h
    · exact ⟨kd, List.mem_of_find?_eq_some hfind, z, hz, (congrArg Fs.id (Root.fs.inj he)).symm⟩
    · cases he

theorem getrootNode_at (h : VfsOk c s) :
    wp (getrootNode name) (fun vn s' => s.StartsAt (.device name) vn ∧ OneMore s vn s' ∧ VfsOk c s')
      (fun e s' => s.Missing (.device name) e ∧ s' = s) (s.Unloaded c (.device name)) s := by
  obtain ⟨r, hr⟩ := h.getroot name.name
  unfold getrootNode
  rw [wp_bind, wp_get, hr, liftVfs, wp_bind, wp_pure]
  cases r with
  | error e => exact ⟨hr, rfl⟩
  | ok r =>
    rw [done, wp_bind, wp_pure]
    cases r with
    | fs y =>
      refine (fsopGetroot_takes (h.fs y.id (s.mounted_getroot hr))).mono (fun vn s' hs => ?_) (fun _ _ he => he)
        fun p hp => ⟨hp.1, hp.2.1, _, ⟨.fs y, hr, rfl⟩, hp.2.2⟩
      obtain ⟨rfl, x, ht, rfl⟩ := hs
      exact ⟨⟨.fs y, hr, rfl⟩, h.takes ht⟩
    | device d =>
      unfold nodeIncref setDev
      rw [wp_bind, wp_bind, wp_get, wp_modify]
      exact ⟨⟨.device d, hr, rfl⟩, h.takesDev⟩

theorem setFs_setFs : (s.setFs fs x).setFs fs x' = s.setFs fs x' := by
  unfold Vfs.setFs
  dsimp only
  rw [Function.update_idem]

/-- The root of the current file system, with the reference to the current directory given back. -/
theorem current_at (h : VfsOk c s) (hcwd : s.tCwd = some (.file fs i)) :
    wp (do
      nodeIncref (.file fs i)
      let root ← fsopGetroot fs
      nodeDecref (.file fs i)
      pure (root, path))
      (fun p s' => (s.StartsAt .current p.1 ∧ p.2 = path) ∧ OneMore s p.1 s' ∧ VfsOk c s') E
      (s.Unloaded c .current) s := by
  obtain ⟨fs', i', v, he, hm, hv, hpos⟩ := h.dirs _ (mem_holds_cwd hcwd)
  cases he
  obtain ⟨u, hu, hu1, hback⟩ := take_back (r := (s.fs fs).root) hv hpos
  refine (incref_takes (h.fs fs hm) hv).bind (fun _ s₁ hs₁ => ?_) fun _ _ he => he
  obtain ⟨x₁, h₁, rfl⟩ := hs₁
  have hx₁ : (s.setFs fs x₁).fs fs = x₁ := Function.update_self ..
  refine wp_bind.mpr ((fsopGetroot_takes (hx₁ ▸ h₁.ok)).mono (fun root s₂ hs₂ => ?_) (fun _ _ he => he) fun p hp => ?_)
  · obtain ⟨rfl, x₂, h₂, rfl⟩ := hs₂
    rw [hx₁, h₁.root] at h₂ ⊢
    rw [setFs_setFs]
    have hx₂ : (s.setFs fs x₂).fs fs = x₂ := Function.update_self ..
    have hc₂ : x₂.counts = take (take (s.fs fs).counts i) (s.fs fs).root := by rw [h₂.counts, h₁.counts]
    refine wp_bind.mpr ((decref_drops (hx₂ ▸ h₂.ok) (by rw [hx₂, hc₂]; exact hu) hu1).mono (fun _ s₃ hs₃ => ?_)
      (fun _ _ he => he) fun _ hk => hk.elim)
    obtain ⟨x₃, ⟨hok, hroot, hcounts⟩, rfl⟩ := hs₃
    rw [hx₂] at hroot hcounts
    rw [setFs_setFs]
    have ht : FsTakes c (s.fs fs) (s.fs fs).root x₃ :=
      ⟨hok, hroot.trans (h₂.root.trans h₁.root), by rw [hcounts, hc₂, hback]⟩
    exact ⟨⟨⟨fs, i, hcwd, rfl⟩, rfl⟩, h.takes ht⟩
  · rw [hx₁, h₁.root, h₁.counts] at hp
    refine ⟨hp.1, hp.2.1, _, ⟨fs, i, hcwd, rfl⟩, ?_⟩
    by_cases hr : (s.fs fs).root = i
    · rw [hr, take, Function.update_self] at hp
      exact absurd hp.2.2 (by simp)
    · rw [take, Function.update_of_ne hr] at hp
      exact hp.2.2

theorem getdevice_at (h : VfsOk c s) :
    wp (getdevice path)
      (fun p s' => (s.StartsAt (splitPath path).1 p.1 ∧ p.2 = (splitPath path).2) ∧ OneMore s p.1 s' ∧ VfsOk c s')
      (fun e s' => s.Missing (splitPath path).1 e ∧ s' = s) (s.Unloaded c (splitPath path).1) s := by
  unfold getdevice
  obtain ⟨start, subpath⟩ := splitPath path
  cases start with
  | cwd =>
    exact (getcurdir_at h).bind (fun vn s' hs => ⟨⟨hs.1, rfl⟩, hs.2⟩) fun _ _ he => he
  | device name =>
    exact (getrootNode_at h).bind (fun vn s' hs => ⟨⟨hs.1, rfl⟩, hs.2⟩) fun _ _ he => he
  | bootfs =>
    dsimp only
    rw [wp_bind, wp_get]
    cases hboot : s.bootfsVnode with
    | none => exact ⟨⟨hboot, rfl⟩, rfl⟩
    | some vn =>
      exact (h.incref (mem_holds_bootfs hboot)).bind (fun _ s' h' => ⟨⟨hboot, rfl⟩, h'⟩)
        fun _ _ he => he
  | current =>
    dsimp only
    unfold vfsGetcurdir
    rw [wp_bind, wp_bind, wp_get]
    cases hcwd : s.tCwd with
    | none => exact ⟨⟨hcwd, rfl⟩, rfl⟩
    | some vn =>
      obtain ⟨fs, i, v, rfl, -⟩ := h.dirs vn (mem_holds_cwd hcwd)
      have hcur := @current_at c s fs i subpath (fun e s' => s.Missing .current e ∧ s' = s) h hcwd
      rw [wp_bind] at hcur ⊢
      exact hcur

end

end Os161
