import Os161.VfspathSound

/-!
# The characters `getdevice` reads

On the array of characters, `getdevice` finds the start and the subpath that
`splitPath` says, and does not read past the terminator.
-/

namespace Os161

open Proc

variable {buf cs post : List UInt8} {p i rounds : Nat}

theorem pathByte_drop {ch : UInt8} (h : buf.drop p = ch :: post) : pathByte buf p = .ok ch := by
  have hget : buf[p]? = some ch := by
    rw [← List.head?_drop, h]
    rfl
  unfold pathByte
  rw [hget]

theorem drop_succ {ch : UInt8} (h : buf.drop p = ch :: post) : buf.drop (p + 1) = post := by
  rw [← List.drop_drop, h]
  rfl

def endsScan (ch : UInt8) : Bool := ch == colon || ch == slash

def scanResult (ch : UInt8) (k : Nat) : Int × Int :=
  if ch = colon then (k, -1) else if ch = slash then (-1, k) else (-1, -1)

theorem scanPath_drop (h : buf.drop i = cs ++ 0 :: post) (h0 : 0 ∉ cs) (hr : cs.length < rounds) :
    scanPath buf rounds i = .ok (scanResult (cs.getD (cs.findIdx endsScan) 0) (i + cs.findIdx endsScan)) := by
  induction cs generalizing i rounds with
  | nil =>
    obtain ⟨rounds, rfl⟩ := Nat.exists_eq_succ_of_ne_zero (Nat.ne_of_gt hr)
    rw [scanPath, pathByte_drop h]
    rfl
  | cons ch cs ih =>
    obtain ⟨rounds, rfl⟩ := Nat.exists_eq_succ_of_ne_zero (Nat.ne_of_gt (Nat.zero_lt_of_lt hr))
    rw [List.mem_cons, not_or] at h0
    rw [scanPath, pathByte_drop h, Outcome.ok_bind, if_neg (fun he => h0.1 he.symm), List.findIdx_cons]
    by_cases hcolon : ch = colon
    · simp [hcolon, endsScan, scanResult]
    · by_cases hslash : ch = slash
      · simp [hslash, endsScan, scanResult, show slash ≠ colon by decide]
      · have hgo : endsScan ch = false := by simp [endsScan, hcolon, hslash]
        rw [if_neg hcolon, if_neg hslash, hgo, ih (drop_succ h) h0.2 (by simpa using hr)]
        dsimp only [cond_false]
        rw [List.getD_cons_succ, Nat.add_assoc, Nat.add_comm 1]

theorem skipSlashesAt_drop (h : buf.drop (p + 1) = cs ++ 0 :: post) (hr : cs.length < rounds) :
    ∃ p', skipSlashesAt buf rounds p = .ok p' ∧ buf.drop (p' + 1) = cs.dropWhile (· == slash) ++ 0 :: post := by
  induction cs generalizing p rounds with
  | nil =>
    obtain ⟨rounds, rfl⟩ := Nat.exists_eq_succ_of_ne_zero (Nat.ne_of_gt hr)
    refine ⟨p, ?_, h⟩
    rw [skipSlashesAt, pathByte_drop h]
    rfl
  | cons ch cs ih =>
    obtain ⟨rounds, rfl⟩ := Nat.exists_eq_succ_of_ne_zero (Nat.ne_of_gt (Nat.zero_lt_of_lt hr))
    rw [skipSlashesAt, pathByte_drop h, Outcome.ok_bind]
    by_cases hslash : ch = slash
    · rw [if_pos hslash, List.dropWhile_cons_of_pos (by simp [hslash])]
      exact ih (drop_succ h) (by simpa using hr)
    · rw [if_neg hslash, List.dropWhile_cons_of_neg (by simp [hslash])]
      exact ⟨p, rfl, h⟩

section
variable {s : Vfs} {E : Errno → Vfs → Prop} {K : FsPanic → Prop} {Q : Node × CString → Vfs → Prop}

theorem wp_liftVfs {α : Type} {r : Except FsPanic α} {a : α} {R : α → Vfs → Prop} (hr : r = .ok a) :
    wp (liftVfs r) R E K s ↔ R a s := by
  rw [hr, liftVfs, wp_pure]

theorem byte_lt {path : CString} {k : Nat} {ch : UInt8} (hk : path.byte k = ch) (hch : ch ≠ 0) :
    k < path.chars.length := by
  refine Nat.lt_of_not_le fun hle => hch ?_
  rw [← hk, CString.byte, List.getD_eq_default _ _ hle]

theorem split_at (path : CString) {k : Nat} {ch : UInt8} (hk : path.byte k = ch) (hch : ch ≠ 0) :
    path.chars = path.chars.take k ++ ch :: path.chars.drop (k + 1) := by
  have hlt := byte_lt hk hch
  have hget : path.chars[k] = ch := by
    rw [← hk, CString.byte, List.getD_eq_getElem _ _ hlt]
  rw [← hget, List.getElem_cons_drop, List.take_append_drop]

theorem splitPath_eq {path : CString} {k : Nat} (hk : path.chars.findIdx endsScan = k) :
    splitPath path =
      if path.byte k = colon then
        if 0 < k then (.device (path.upto k), (path.skip (k + 1)).skipSlashes) else
          (.current, (path.skip 1).skipSlashes)
      else if path.byte k = slash ∧ k = 0 then (.bootfs, (path.skip 1).skipSlashes)
      else (.cwd, path) := by
  subst hk
  rfl

theorem subpath_eq {path : CString} {k p' : Nat}
    (hrest : buf.drop (p' + 1) = (path.chars.drop k).dropWhile (· == slash) ++ 0 :: []) :
    stringAt buf (p' + 1) = (path.skip k).skipSlashes :=
  CString.ext (stringAt_drop hrest ((path.skip k).skipSlashes).noNul)

theorem wp_leading {path : CString} {start : VfsM Node} {ch : UInt8} (hch : path.byte 0 = ch) (h0 : ch ≠ 0) :
    wp (do
      let vn ← start
      let p ← liftVfs (skipSlashesAt path.buf path.buf.length 0)
      pure (vn, p + 1, path.buf)) (fun r => Q (r.1, stringAt r.2.2 r.2.1)) E K s ↔
    wp start (fun vn => Q (vn, (path.skip 1).skipSlashes)) E K s := by
  have hdrop : path.buf.drop (0 + 1) = path.chars.drop 1 ++ 0 :: [] := by
    rw [CString.buf, split_at path hch h0]
    rfl
  have hrounds : (path.chars.drop 1).length < path.buf.length := by
    simp only [CString.buf, List.length_append, List.length_drop, List.length_cons, List.length_nil]
    omega
  obtain ⟨p', hp', hrest⟩ := skipSlashesAt_drop hdrop hrounds
  rw [wp_bind]
  refine wp_congr fun vn s' => ?_
  rw [wp_bind, wp_liftVfs hp', wp_pure, subpath_eq hrest]

theorem wp_getdeviceBuf (path : CString) :
    wp (getdeviceBuf path.buf) (fun r => Q (r.1, stringAt r.2.2 r.2.1)) E K s ↔ wp (getdevice path) Q E K s := by
  have hbuf : path.buf = path.chars ++ 0 :: [] := rfl
  have hlen : path.buf.length = path.chars.length + 1 := by simp [hbuf]
  generalize hk : path.chars.findIdx endsScan = k
  have hscan : scanPath path.buf path.buf.length 0 = .ok (scanResult (path.byte k) k) := by
    rw [scanPath_drop (show path.buf.drop 0 = path.chars ++ 0 :: [] from rfl) path.noNul (by omega), hk, Nat.zero_add]
    rfl
  have hwhole : stringAt path.buf 0 = path := CString.ext (stringAt_drop rfl path.noNul)
  unfold getdeviceBuf getdevice
  rw [wp_bind, wp_liftVfs hscan, splitPath_eq hk]
  unfold scanResult
  by_cases hcolon : path.byte k = colon
  · rw [if_pos hcolon, if_pos hcolon]
    by_cases hpos : 0 < k
    · -- the colon becomes the terminator of the device name
      have hklen : k < path.chars.length := byte_lt hcolon (by decide)
      have hset : path.buf.set k 0 = path.chars.take k ++ 0 :: (path.chars.drop (k + 1) ++ 0 :: []) := by
        rw [hbuf, List.set_append_left _ _ hklen, List.set_eq_take_append_cons_drop, if_pos hklen, List.append_assoc]
        rfl
      have htake : (path.chars.take k).length = k := List.length_take_of_le (Nat.le_of_lt hklen)
      have hdrop : (path.buf.set k 0).drop (k + 1) = path.chars.drop (k + 1) ++ 0 :: [] := by
        rw [hset, List.drop_append, htake, List.drop_eq_nil_of_le (by omega), Nat.add_sub_cancel_left]
        rfl
      have hrounds : (path.chars.drop (k + 1)).length < (path.buf.set k 0).length := by
        rw [List.length_drop, List.length_set]
        omega
      obtain ⟨p', hp', hrest⟩ := skipSlashesAt_drop hdrop hrounds
      have hname : stringAt (path.buf.set k 0) 0 = path.upto k :=
        CString.ext (stringAt_drop (by rw [List.drop_zero, hset]; rfl) (path.upto k).noNul)
      dsimp only
      rw [if_neg (by omega), if_pos (by omega), if_pos hpos, Int.toNat_natCast, wp_bind, wp_liftVfs hp', hname,
        wp_bind, wp_bind]
      refine wp_congr fun vn s' => ?_
      rw [wp_pure, wp_pure, subpath_eq hrest]
    · obtain rfl := Nat.eq_zero_of_not_pos hpos
      have hch : pathByte path.buf 0 = .ok colon := pathByte_drop (by rw [hbuf, split_at path hcolon (by decide)]; rfl)
      dsimp only
      rw [if_neg (by omega), if_neg (by omega), if_neg hpos, wp_bind, wp_require (Or.inl Int.natCast_zero), wp_bind,
        wp_liftVfs hch, wp_leading hcolon (by decide)]
      unfold leadingVnode
      rw [if_neg (by decide), wp_bind, wp_require rfl, wp_bind, wp_bind]
      refine wp_congr fun vn s₁ => ?_
      cases vn with
      | device d => rfl
      | file fs ino =>
        dsimp only
        rw [wp_bind, wp_bind]
        refine wp_congr fun root s₂ => ?_
        rw [wp_bind, wp_bind]
        rfl
  · rw [if_neg hcolon, if_neg hcolon]
    by_cases hslash : path.byte k = slash
    · by_cases hzero : k = 0
      · subst hzero
        have hch : pathByte path.buf 0 = .ok slash :=
          pathByte_drop (by rw [hbuf, split_at path hslash (by decide)]; rfl)
        rw [if_pos hslash, if_pos ⟨hslash, rfl⟩]
        dsimp only
        rw [if_neg (by omega), if_neg (by omega), wp_bind, wp_require (Or.inr Int.natCast_zero),
          wp_bind, wp_liftVfs hch, wp_leading hslash (by decide)]
        unfold leadingVnode
        rw [if_pos rfl, wp_bind, wp_get, wp_bind, wp_get]
        cases s.bootfsVnode with
        | none => rfl
        | some vn =>
          dsimp only
          rw [wp_bind, wp_bind]
          rfl
      · rw [if_pos hslash, if_neg (fun h => hzero h.2)]
        dsimp only
        rw [if_pos (by omega), wp_bind, wp_bind]
        refine wp_congr fun vn s' => ?_
        rw [wp_pure, wp_pure, hwhole]
    · rw [if_neg hslash, if_neg (fun h => hslash h.1)]
      dsimp only
      rw [if_pos (by omega), wp_bind, wp_bind]
      refine wp_congr fun vn s' => ?_
      rw [wp_pure, wp_pure, hwhole]

end

/-! ## Paths on a device -/

def devicePath (name : CString) (k : Nat) (p : CString) : CString where
  chars := name.chars ++ colon :: (List.replicate k slash ++ p.chars)
  noNul := by
    rw [List.mem_append, List.mem_cons, List.mem_append, List.mem_replicate, not_or, not_or, not_or]
    exact ⟨name.noNul, by decide, fun h => absurd h.2 (by decide), p.noNul⟩

theorem splitPath_devicePath {name p : CString} {k : Nat} (hne : name.chars ≠ [])
    (hname : ∀ ch ∈ name.chars, ch ≠ colon ∧ ch ≠ slash) :
    splitPath (devicePath name k p) = (.device name, p.skipSlashes) := by
  have hgo : name.chars.findIdx endsScan = name.chars.length :=
    List.findIdx_eq_length_of_false fun ch hch => by simp [endsScan, hname ch hch]
  have hidx : (devicePath name k p).chars.findIdx endsScan = name.chars.length := by
    unfold devicePath
    rw [List.findIdx_append, hgo, if_neg (Nat.lt_irrefl _)]
    simp [List.findIdx_cons, endsScan]
  have hcolon : (devicePath name k p).byte name.chars.length = colon := by simp [CString.byte, devicePath]
  rw [splitPath_eq hidx, if_pos hcolon, if_pos (List.length_pos_iff.mpr hne)]
  refine Prod.ext (congrArg PathStart.device (CString.ext ?_)) (CString.ext ?_)
  · simp [CString.upto, devicePath]
  · have hslashes : ∀ ch ∈ List.replicate k slash, (ch == slash) = true := by
      intro ch hch
      simp [(List.mem_replicate.mp hch).2]
    have hdrop : (devicePath name k p).chars.drop (name.chars.length + 1) = List.replicate k slash ++ p.chars := by
      simp [devicePath]
    simp only [CString.skipSlashes, CString.skip, hdrop]
    exact List.dropWhile_append_of_pos hslashes

/-- `getdevice` returns the start and the subpath of the grammar, with one more reference to the start, or
takes no reference and fails because there is no such start; slashes after a device name change nothing.
The machine stops where the start is an SFS root that is not in memory and cannot be loaded. -/
theorem getdevice_exact {c : Prop} {s : Vfs} (h : VfsOk c s) (path : CString) :
    wp (getdeviceBuf path.buf)
      (fun r s' => (s.StartsAt (splitPath path).1 r.1 ∧ stringAt r.2.2 r.2.1 = (splitPath path).2) ∧
        OneMore s r.1 s' ∧ VfsOk c s')
      (fun e s' => s.Missing (splitPath path).1 e ∧ s' = s) (s.Unloaded c (splitPath path).1) s ∧
    ∀ name p k, name.chars ≠ [] → (∀ ch ∈ name.chars, ch ≠ colon ∧ ch ≠ slash) →
      splitPath (devicePath name k p) = (.device name, p.skipSlashes) ∧
      vfsLookup (devicePath name k p) = vfsLookup (devicePath name 0 p) ∧
      vfsLookparent (devicePath name k p) = vfsLookparent (devicePath name 0 p) := by
  constructor
  · refine (wp_getdeviceBuf path (Q := fun r s' => (s.StartsAt (splitPath path).1 r.1 ∧ r.2 = (splitPath path).2) ∧
      OneMore s r.1 s' ∧ VfsOk c s')).mpr ?_
    exact getdevice_at h
  · intro name p k hne hname
    have hsplit : ∀ k, splitPath (devicePath name k p) = (.device name, p.skipSlashes) :=
      fun k => splitPath_devicePath hne hname
    have hsame : getdevice (devicePath name k p) = getdevice (devicePath name 0 p) := by
      unfold getdevice
      rw [hsplit k, hsplit 0]
    refine ⟨hsplit k, ?_, ?_⟩
    · unfold vfsLookup
      rw [hsame]
    · unfold vfsLookparent
      rw [hsame]

/-- The system after booting from emufs, with a volume mounted on `lhd0` whose root is not in memory. -/
def bootVfs (faults : List Bool) : Vfs where
  knowndevs := [
    { kdName := "con", kdRawname := none, kdDevice := some 0, kdVnode := 0, kdFs := none },
    { kdName := "lhd0", kdRawname := some "lhd0raw", kdDevice := some 1, kdVnode := 1, kdFs := some ⟨1, some ""⟩ },
    { kdName := "emu0", kdRawname := none, kdDevice := none, kdVnode := 2, kdFs := some ⟨0, none⟩ }]
  tCwd := some (.file 0 emuRoothandle)
  bootfsVnode := some (.file 0 emuRoothandle)
  fs i := if i = 0 then .emufs {
      efVnodes := Function.update (fun _ => none) emuRoothandle
        (some { evV := { vnRefcount := 3, vnOpencount := 0 }, isdir := true })
      emuOpen := fun _ _ => .error .enoent
      emuClose := fun _ => none
      memory := true }
    else .sfs ((oneBlock 2 zeroBlock).withFaults faults)
  devCounts _ := vnodeInit

theorem bootVfs_ok (faults : List Bool) : VfsOk False (bootVfs faults) where
  devs kd hkd := by
    simp only [bootVfs, List.mem_cons, List.not_mem_nil, or_false] at hkd
    obtain rfl | rfl | rfl := hkd <;> exact ⟨by simp, by simp⟩
  fs i _ := by
    by_cases hi : i = 0
    · subst hi
      exact ⟨_, rfl⟩
    · have hfs : (bootVfs faults).fs i = .sfs ((oneBlock 2 zeroBlock).withFaults faults) := if_neg hi
      rw [hfs]
      exact ⟨_, oneOwner, (oneBlock_owned (by decide)).rep.withFaults faults, False.elim⟩
  dirs vn hvn := by
    have hroot : vn = .file 0 emuRoothandle := by
      simpa [VfsEnv.holds, bootVfs] using hvn
    have hmounted : (bootVfs faults).mounted 0 :=
      ⟨_, List.mem_cons_of_mem _ (List.mem_cons_of_mem _ List.mem_cons_self), ⟨0, none⟩, rfl, rfl⟩
    exact ⟨0, emuRoothandle, { vnRefcount := 3, vnOpencount := 0 }, hroot, hmounted, rfl, by decide⟩

theorem getdevice_exact_boot : ∃ r s', getdeviceBuf [58, 47, 120, 0] (bootVfs []) = .ok (.ok r, s') ∧
    ((bootVfs []).StartsAt .current r.1 ∧ stringAt r.2.2 r.2.1 = ⟨[120], by decide⟩) ∧ OneMore (bootVfs []) r.1 s' ∧
    VfsOk False s' :=
  ⟨_, _, rfl, ((getdevice_exact (bootVfs_ok []) ⟨[58, 47, 120], by decide⟩).1).ok rfl⟩

/-- `lhd0:` names a device that is there, but the first read of its root fails. -/
theorem getdevice_stops : VfsOk False (bootVfs [true]) ∧
    (bootVfs [true]).StartsAt (splitPath ⟨[108, 104, 100, 48, 58], by decide⟩).1 (.file 1 sfsRootLocation) ∧
    getdeviceBuf [108, 104, 100, 48, 58, 0] (bootVfs [true]) = .error .cannotLoadRoot :=
  ⟨bootVfs_ok [true], ⟨.fs ⟨1, some ""⟩, by decide, rfl⟩, rfl⟩

end Os161
