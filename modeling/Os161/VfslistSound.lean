import Mathlib.Data.List.Pairwise
import Mathlib.Data.List.Lattice
import Os161.Lib.Outcome
import Os161.Vfslist

/-!
# Names in the device table

An entry has up to three names. Adding a device compares all of them with all
names in the table; mounting a file system brings in a volume name that is
compared with nothing.
-/

namespace Os161

open Outcome

variable {devs devs' l₁ l₂ : List Knowndev} {kd kd' : Knowndev} {n : String}

def Knowndev.volname (kd : Knowndev) : Option String := kd.kdFs.bind Fs.volname

def Knowndev.names (kd : Knowndev) : List String := kd.kdName :: (kd.kdRawname.toList ++ kd.volname.toList)

def Knowndev.Apart (a b : Knowndev) : Prop := List.Disjoint a.names b.names

theorem Knowndev.Apart.symm {a b : Knowndev} (h : a.Apart b) : b.Apart a := List.Disjoint.symm h

instance : Std.Symm Knowndev.Apart := ⟨fun _ _ => Knowndev.Apart.symm⟩

structure Knowndev.Ok (kd : Knowndev) : Prop where
  noFs : kd.kdFs = none → kd.kdDevice ≠ none
  raw : kd.kdRawname ≠ none → kd.kdDevice ≠ none

inductive VfsOp
  | adddev (devname : String) (dev : Nat) (mountable : Bool) (mem : AddMemory)
  | addfs (devname : String) (fs : Fs) (mem : AddMemory)
  | mount (devname : String) (mountfunc : Nat → Except Errno Fs)
  | unmount (devname : String) (sync unmount : Option Errno)
  | unmountall (sync sync' unmount : Fs → Option Errno)

def vfsStep (devs : List Knowndev) : VfsOp → Except FsPanic (List Knowndev)
  | .adddev devname dev mountable mem => .ok (vfsAdddev devs devname dev mountable mem).2
  | .addfs devname fs mem => .ok (vfsAddfs devs devname fs mem).2
  | .mount devname mountfunc => Prod.snd <$> vfsMount devs devname mountfunc
  | .unmount devname sync unmount => Prod.snd <$> vfsUnmount devs devname sync unmount
  | .unmountall sync sync' unmount => .ok (vfsUnmountall devs sync sync' unmount)

/-- A file system that gets mounted has a volume name that no other entry has. -/
def VfsOp.Fits (devs : List Knowndev) : VfsOp → Prop
  | .mount devname mountfunc => ∀ kd ∈ devs, kd.kdName = devname → kd.kdRawname ≠ none → kd.kdFs = none →
    ∀ dev fs vol, kd.kdDevice = some dev → mountfunc dev = .ok fs → fs.volname = some vol →
      ∀ kd' ∈ devs, kd' ≠ kd → vol ∉ kd'.names
  | _ => True

structure DevsOk (devs : List Knowndev) : Prop where
  apart : devs.Pairwise Knowndev.Apart
  entry : ∀ kd ∈ devs, kd.Ok

/-! ## Lookup -/

theorem vfsGetroot_cons (kd : Knowndev) (devs : List Knowndev) (n : String) :
    vfsGetroot (kd :: devs) n = if n ∈ kd.names then vfsGetroot [kd] n else vfsGetroot devs n := by
  obtain ⟨name, rawname, device, vnode, fs⟩ := kd
  cases fs with
  | none =>
    by_cases h1 : name = n
    · subst h1
      cases rawname <;> simp [vfsGetroot, Knowndev.names, Knowndev.volname]
    · by_cases h2 : rawname = some n
      · simp [vfsGetroot, Knowndev.names, Knowndev.volname, h1, h2]
      · have h3 : n ∉ rawname.toList := by simpa [eq_comm] using h2
        simp [vfsGetroot, Knowndev.names, Knowndev.volname, h1, h2, Ne.symm h1]
  | some fs =>
    by_cases h1 : name = n
    · simp [vfsGetroot, Knowndev.names, h1]
    · by_cases h2 : fs.volname = some n
      · simp [vfsGetroot, Knowndev.names, Knowndev.volname, h2]
      · by_cases h3 : rawname = some n
        · simp [vfsGetroot, Knowndev.names, h1, h2, h3]
        · simp [vfsGetroot, Knowndev.names, Knowndev.volname, h1, h2, h3, Ne.symm h1]

theorem vfsGetroot_find (devs : List Knowndev) (n : String) : vfsGetroot devs n =
    match devs.find? (fun kd => decide (n ∈ kd.names)) with
    | none => .ok (.error .enodev)
    | some kd => vfsGetroot [kd] n := by
  induction devs with
  | nil => rfl
  | cons kd devs ih =>
    rw [vfsGetroot_cons, List.find?_cons]
    by_cases h : n ∈ kd.names
    · simp [h]
    · simp [h, ih]

theorem Knowndev.Ok.vfsGetroot (h : kd.Ok) (n : String) : ∃ r, vfsGetroot [kd] n = .ok r := by
  obtain ⟨name, rawname, device, vnode, fs⟩ := kd
  cases fs with
  | none =>
    have hd : device ≠ none := h.noFs rfl
    cases rawname <;> simp only [Os161.vfsGetroot, ne_eq, hd, not_true_eq_false, not_false_eq_true,
      reduceCtorEq, false_and, true_and, ite_false] <;> split <;> (try split) <;> exact ⟨_, rfl⟩
  | some fs =>
    by_cases h1 : name = n
    · exact ⟨_, by simp [Os161.vfsGetroot, h1]; rfl⟩
    · by_cases h2 : fs.volname = some n
      · exact ⟨_, by simp [Os161.vfsGetroot, h2]; rfl⟩
      · by_cases h3 : rawname = some n
        · have hd : device ≠ none := h.raw (by rw [h3]; simp)
          exact ⟨_, by simp [Os161.vfsGetroot, h1, h2, h3, hd]; rfl⟩
        · exact ⟨_, by simp [Os161.vfsGetroot, h1, h2, h3]; rfl⟩

theorem vfsGetroot_single {r : Root} (h : vfsGetroot [kd] n = .ok (.ok r)) :
    (∃ x, kd.kdFs = some x ∧ r = .fs x) ∨ r = .device kd.kdVnode := by
  unfold vfsGetroot at h
  split at h
  · rename_i x hfs
    repeat' split at h
    all_goals cases h
    · exact Or.inl ⟨x, hfs, rfl⟩
    · exact Or.inr rfl
  · repeat' split at h
    all_goals cases h
    · exact Or.inr rfl
    · exact Or.inr rfl

theorem DevsOk.vfsGetroot (h : DevsOk devs) (n : String) : ∃ r, vfsGetroot devs n = .ok r := by
  rw [vfsGetroot_find]
  cases hf : devs.find? (fun kd => decide (n ∈ kd.names)) with
  | none => exact ⟨_, rfl⟩
  | some kd => exact (h.entry kd (List.mem_of_find?_eq_some hf)).vfsGetroot n

theorem apart_unique (h : devs.Pairwise Knowndev.Apart) (hk : kd ∈ devs) (hk' : kd' ∈ devs) (hn : n ∈ kd.names)
    (hn' : n ∈ kd'.names) : kd = kd' := by
  by_contra hne
  exact h.forall hk hk' hne hn hn'

theorem vfsGetroot_perm (h : devs.Pairwise Knowndev.Apart) (hp : devs'.Perm devs) (n : String) :
    vfsGetroot devs' n = vfsGetroot devs n := by
  rw [vfsGetroot_find, vfsGetroot_find]
  cases hf : devs.find? (fun kd => decide (n ∈ kd.names)) with
  | none =>
    have hnone : devs'.find? (fun kd => decide (n ∈ kd.names)) = none :=
      List.find?_eq_none.mpr fun kd hk => List.find?_eq_none.mp hf kd (hp.mem_iff.mp hk)
    rw [hnone]
  | some kd =>
    have hk := List.mem_of_find?_eq_some hf
    have hn : n ∈ kd.names := by simpa using List.find?_some hf
    cases hf' : devs'.find? (fun kd => decide (n ∈ kd.names)) with
    | none => exact absurd (List.find?_eq_none.mp hf' kd (hp.mem_iff.mpr hk)) (by simpa using hn)
    | some kd' =>
      have hk' := hp.mem_iff.mp (List.mem_of_find?_eq_some hf')
      rw [apart_unique h hk' hk (by simpa using List.find?_some hf') hn]

/-! ## Adding -/

theorem samestring_iff {a b : Option String} : samestring a b = true ↔ ∃ s, a = some s ∧ b = some s := by
  cases a with
  | none => simp [samestring]
  | some a =>
    cases b with
    | none => simp [samestring]
    | some b =>
      simp only [samestring, beq_iff_eq, Option.some.injEq]
      exact ⟨fun h => ⟨a, rfl, h.symm⟩, fun ⟨s, h, h'⟩ => h.trans h'.symm⟩

theorem samestring_false {b : Option String} : samestring (some n) b = false ↔ b ≠ some n := by
  rw [← Bool.not_eq_true, samestring_iff]
  simp

theorem badnames_false {n1 n2 n3 : Option String} (h : badnames devs n1 n2 n3 = false) (hk : kd ∈ devs)
    (hn : n ∈ kd.names) : n1 ≠ some n ∧ n2 ≠ some n ∧ n3 ≠ some n := by
  have hsame : ∀ a, a = some n → samestring3 a n1 n2 n3 = false → n1 ≠ some n ∧ n2 ≠ some n ∧ n3 ≠ some n := by
    rintro a rfl hs
    simp only [samestring3, Bool.or_eq_false_iff, samestring_false] at hs
    exact ⟨hs.1.1, hs.1.2, hs.2⟩
  have hkd := List.any_eq_false.mp h kd hk
  simp only [Bool.not_eq_true, Bool.or_eq_false_iff] at hkd
  obtain ⟨⟨hvol, hraw⟩, hname⟩ := hkd
  simp only [Knowndev.names, List.mem_cons, List.mem_append, Option.mem_toList] at hn
  rcases hn with rfl | hn | hn
  · exact hsame _ rfl hname
  · exact hsame _ hn hraw
  · obtain ⟨fs, hfs, hv⟩ := Option.bind_eq_some_iff.mp hn
    rw [hfs] at hvol
    exact hsame _ hv hvol

theorem DevsOk.add (h : DevsOk devs) (hk : kd.Ok)
    (hb : badnames devs (some kd.kdName) kd.kdRawname kd.volname = false) : DevsOk (devs ++ [kd]) where
  apart := by
    refine List.pairwise_append.mpr ⟨h.apart, List.pairwise_singleton .., ?_⟩
    simp only [List.mem_singleton, forall_eq]
    intro a ha n hn hn'
    obtain ⟨h1, h2, h3⟩ := badnames_false hb ha hn
    simp only [Knowndev.names, List.mem_cons, List.mem_append, Option.mem_toList] at hn'
    rcases hn' with rfl | hn' | hn'
    · exact h1 rfl
    · exact h2 hn'
    · exact h3 hn'
  entry := by
    simp only [List.mem_append, List.mem_singleton]
    rintro a (ha | rfl)
    · exact h.entry a ha
    · exact hk

theorem DevsOk.doadd (h : DevsOk devs) {dname : String} {mountable : Bool} {dev : Option Nat} {fs : Option Fs}
    {mem : AddMemory} (h1 : fs = none → dev ≠ none) (h2 : mountable = true → dev ≠ none) :
    DevsOk (vfsDoadd devs dname mountable dev fs mem).2 := by
  unfold vfsDoadd
  split
  · exact h
  split
  · exact h
  cases mem.vnode with
  | none => exact h
  | some vnode =>
    dsimp only
    generalize hr : (if mountable = true then some (mkrawname dname) else none) = rawname
    split
    · exact h
    split
    · exact h
    · rename_i hb
      split
      · exact h
      · refine h.add ⟨h1, fun hraw => h2 ?_⟩ (Bool.eq_false_iff.mpr hb)
        by_contra hm
        rw [if_neg hm] at hr
        exact hraw hr.symm

/-! ## Mounting -/

theorem set_split {i : Nat} (h : devs[i]? = some kd) :
    ∃ l₁ l₂, devs = l₁ ++ kd :: l₂ ∧ ∀ x, devs.set i x = l₁ ++ x :: l₂ := by
  induction devs generalizing i with
  | nil => cases h
  | cons a devs ih =>
    cases i with
    | zero =>
      obtain rfl : a = kd := Option.some.inj h
      exact ⟨[], devs, rfl, fun x => rfl⟩
    | succ i =>
      obtain ⟨l₁, l₂, e, hs⟩ := ih h
      exact ⟨a :: l₁, l₂, by rw [e]; rfl, fun x => by rw [List.set_cons_succ, hs]; rfl⟩

theorem apart_middle : (l₁ ++ kd :: l₂).Pairwise Knowndev.Apart ↔
    (∀ x ∈ l₁ ++ l₂, kd.Apart x) ∧ (l₁ ++ l₂).Pairwise Knowndev.Apart := by
  rw [List.pairwise_middle fun {_ _} => Knowndev.Apart.symm, List.pairwise_cons]

theorem apart_replace (h : (l₁ ++ kd :: l₂).Pairwise Knowndev.Apart) :
    (l₁ ++ kd' :: l₂).Pairwise Knowndev.Apart ↔ ∀ x ∈ l₁ ++ l₂, kd'.Apart x := by
  rw [apart_middle]
  exact ⟨fun h' => h'.1, fun h' => ⟨h', (apart_middle.mp h).2⟩⟩

theorem names_mount {fs : Fs} (hfs : kd.kdFs = none) :
    n ∈ ({ kd with kdFs := some fs } : Knowndev).names ↔ n ∈ kd.names ∨ fs.volname = some n := by
  simp only [Knowndev.names, Knowndev.volname, hfs, List.mem_cons, List.mem_append, Option.mem_toList, Option.bind_some,
    Option.bind_none, reduceCtorEq, or_false, or_assoc]

theorem names_unmount : n ∈ ({ kd with kdFs := none } : Knowndev).names → n ∈ kd.names := by
  simp only [Knowndev.names, Knowndev.volname, List.mem_cons, List.mem_append, Option.mem_toList, Option.bind_none,
    reduceCtorEq, or_false]
  tauto

theorem findmount_some {devname : String} {i : Nat} (h : findmount devs devname = some i) :
    ∃ kd, devs[i]? = some kd ∧ kd.kdRawname ≠ none ∧ kd.kdName = devname := by
  obtain ⟨hi, hp, -⟩ := List.findIdx?_eq_some_iff_getElem.mp h
  simp only [Bool.and_eq_true, beq_iff_eq, Option.isSome_iff_ne_none] at hp
  exact ⟨devs[i], List.getElem?_eq_getElem hi, hp⟩

theorem findmount_none {devname : String} (h : findmount devs devname = none) (hk : kd ∈ devs)
    (hr : kd.kdRawname ≠ none) : kd.kdName ≠ devname := by
  have := List.findIdx?_eq_none_iff.mp h kd hk
  simp only [Bool.and_eq_false_iff, Option.isSome_eq_false_iff, Option.isNone_iff_eq_none, beq_eq_false_iff_ne] at this
  exact this.resolve_left hr

theorem name_mem (kd : Knowndev) : kd.kdName ∈ kd.names := List.mem_cons_self ..

theorem DevsOk.mount (h : DevsOk devs) (devname : String) (mountfunc : Nat → Except Errno Fs) :
    ∃ r devs', vfsMount devs devname mountfunc = .ok (r, devs') ∧ (∀ kd ∈ devs', kd.Ok) ∧
      (devs'.Pairwise Knowndev.Apart ↔ (VfsOp.mount devname mountfunc).Fits devs) := by
  unfold vfsMount
  cases hf : findmount devs devname with
  | none =>
    exact ⟨_, _, rfl, h.entry, fun _ kd hk hname hraw => absurd hname (findmount_none hf hk hraw), fun _ => h.apart⟩
  | some i =>
    obtain ⟨kd, hi, hraw, rfl⟩ := findmount_some hf
    have hk : kd ∈ devs := List.mem_of_getElem? hi
    have huniq : ∀ kd' ∈ devs, kd'.kdName = kd.kdName → kd' = kd := fun kd' hk' hn =>
      apart_unique h.apart hk' hk (hn ▸ name_mem kd') (name_mem kd)
    simp only [hi, hraw, if_false]
    by_cases hfs : kd.kdFs = none
    · obtain ⟨dev, hdev⟩ := Option.ne_none_iff_exists'.mp ((h.entry kd hk).noFs hfs)
      simp only [hfs, ne_eq, not_true_eq_false, ite_false, hdev]
      cases hm : mountfunc dev with
      | error e =>
        refine ⟨_, _, rfl, h.entry, fun _ kd' hk' hn _ _ dev' fs vol hdev' hm' => ?_, fun _ => h.apart⟩
        rw [huniq kd' hk' hn, hdev] at hdev'
        cases hdev'
        rw [hm] at hm'
        cases hm'
      | ok fs =>
        obtain ⟨l₁, l₂, rfl, hset⟩ := set_split hi
        refine ⟨none, (l₁ ++ kd :: l₂).set i { kd with kdFs := some fs }, by rw [hdev], ?_, ?_⟩
        · rw [hset]
          intro x hx
          rcases List.mem_append.mp hx with hx | hx
          · exact h.entry x (List.mem_append_left _ hx)
          · rcases List.mem_cons.mp hx with rfl | hx
            · exact ⟨nofun, (h.entry kd hk).raw⟩
            · exact h.entry x (List.mem_append_right _ (List.mem_cons_of_mem _ hx))
        · rw [hset, apart_replace h.apart]
          have hold := (apart_middle.mp h.apart).1
          constructor
          · intro hnew kd' hk' hn _ _ dev' fs' vol hdev' hm' hvol x hx hne
            rw [huniq kd' hk' hn] at hdev' hne
            cases hdev.symm.trans hdev'
            cases hm.symm.trans hm'
            have hx' : x ∈ l₁ ++ l₂ := by
              simp only [List.mem_append, List.mem_cons] at hx ⊢
              tauto
            exact fun hmem => hnew x hx' ((names_mount hfs).mpr (Or.inr hvol)) hmem
          · intro hfit x hx n hn hnx
            rcases (names_mount hfs).mp hn with hn | hvol
            · exact hold x hx hn hnx
            · have hx' : x ∈ l₁ ++ kd :: l₂ := by
                simp only [List.mem_append, List.mem_cons] at hx ⊢
                tauto
              refine hfit kd hk rfl hraw hfs dev fs n hdev hm hvol x hx' ?_ hnx
              rintro rfl
              exact hold x hx (name_mem x) (name_mem x)
    · refine ⟨_, _, by rw [if_pos hfs], h.entry, fun _ kd' hk' hn _ hfs' => ?_, fun _ => h.apart⟩
      rw [huniq kd' hk' hn] at hfs'
      exact absurd hfs' hfs

theorem DevsOk.unmount (h : DevsOk devs) (devname : String) (sync unmount : Option Errno) :
    ∃ r devs', vfsUnmount devs devname sync unmount = .ok (r, devs') ∧ DevsOk devs' := by
  unfold vfsUnmount
  cases hf : findmount devs devname with
  | none => exact ⟨_, _, rfl, h⟩
  | some i =>
    obtain ⟨kd, hi, hraw, rfl⟩ := findmount_some hf
    have hk : kd ∈ devs := List.mem_of_getElem? hi
    have hdev := (h.entry kd hk).raw hraw
    simp only [hi, hraw, hdev, if_false]
    split
    · exact ⟨_, _, rfl, h⟩
    cases sync with
    | some e => exact ⟨_, _, rfl, h⟩
    | none =>
      cases unmount with
      | some e => exact ⟨_, _, rfl, h⟩
      | none =>
        obtain ⟨l₁, l₂, rfl, hset⟩ := set_split hi
        refine ⟨_, _, rfl, ?_, ?_⟩
        · rw [hset, apart_replace h.apart]
          exact fun x hx n hn => (apart_middle.mp h.apart).1 x hx (names_unmount hn)
        · rw [hset]
          intro x hx
          rcases List.mem_append.mp hx with hx | hx
          · exact h.entry x (List.mem_append_left _ hx)
          · rcases List.mem_cons.mp hx with rfl | hx
            · exact ⟨fun _ => hdev, fun _ => hdev⟩
            · exact h.entry x (List.mem_append_right _ (List.mem_cons_of_mem _ hx))

theorem unmount_entry (sync sync' unmount : Fs → Option Errno) (kd : Knowndev) :
    (match kd.kdRawname, kd.kdFs with
      | some _, some fs =>
        if (sync fs ≠ none ∧ sync' fs ≠ none) ∨ unmount fs ≠ none then kd else { kd with kdFs := none }
      | _, _ => kd) = kd ∨ (kd.kdRawname ≠ none ∧ (match kd.kdRawname, kd.kdFs with
      | some _, some fs =>
        if (sync fs ≠ none ∧ sync' fs ≠ none) ∨ unmount fs ≠ none then kd else { kd with kdFs := none }
      | _, _ => kd) = { kd with kdFs := none }) := by
  obtain ⟨name, rawname, device, vnode, fs⟩ := kd
  cases rawname <;> cases fs <;> simp only [true_or, ne_eq, reduceCtorEq, not_false_eq_true, true_and]
  split <;> simp

theorem DevsOk.unmountall (h : DevsOk devs) (sync sync' unmount : Fs → Option Errno) :
    DevsOk (vfsUnmountall devs sync sync' unmount) := by
  -- an entry either stays or loses its file system
  have hsub : ∀ kd ∈ devs, ∀ kd', kd' = kd ∨ (kd.kdRawname ≠ none ∧ kd' = { kd with kdFs := none }) →
      (∀ n ∈ kd'.names, n ∈ kd.names) ∧ kd'.Ok := by
    rintro kd hk kd' (rfl | ⟨hraw, rfl⟩)
    · exact ⟨fun _ hn => hn, h.entry _ hk⟩
    · have hdev := (h.entry kd hk).raw hraw
      exact ⟨fun _ hn => names_unmount hn, fun _ => hdev, fun _ => hdev⟩
  unfold vfsUnmountall
  constructor
  · rw [List.pairwise_map]
    exact h.apart.imp_of_mem fun {a b} ha hb hab n hn hn' =>
      hab ((hsub a ha _ (unmount_entry _ _ _ a)).1 n hn) ((hsub b hb _ (unmount_entry _ _ _ b)).1 n hn')
  · intro kd hk
    obtain ⟨a, ha, rfl⟩ := List.mem_map.mp hk
    exact (hsub a ha _ (unmount_entry _ _ _ a)).2

/-! ## Runs -/

theorem DevsOk.step (h : DevsOk devs) (op : VfsOp) : ∃ devs', vfsStep devs op = .ok devs' ∧ (∀ kd ∈ devs', kd.Ok) ∧
    (devs'.Pairwise Knowndev.Apart ↔ op.Fits devs) := by
  cases op with
  | adddev devname dev mountable mem =>
    have h' : DevsOk (vfsAdddev devs devname dev mountable mem).2 := h.doadd nofun nofun
    exact ⟨_, rfl, h'.entry, fun _ => trivial, fun _ => h'.apart⟩
  | addfs devname fs mem =>
    have h' : DevsOk (vfsAddfs devs devname fs mem).2 := h.doadd nofun nofun
    exact ⟨_, rfl, h'.entry, fun _ => trivial, fun _ => h'.apart⟩
  | mount devname mountfunc =>
    obtain ⟨r, devs', he, hent, hiff⟩ := h.mount devname mountfunc
    exact ⟨devs', by rw [vfsStep, he]; rfl, hent, hiff⟩
  | unmount devname sync unmount =>
    obtain ⟨r, devs', he, h'⟩ := h.unmount devname sync unmount
    exact ⟨devs', by rw [vfsStep, he]; rfl, h'.entry, fun _ => trivial, fun _ => h'.apart⟩
  | unmountall sync sync' unmount =>
    have h' := h.unmountall sync sync' unmount
    exact ⟨_, rfl, h'.entry, fun _ => trivial, fun _ => h'.apart⟩

/-- As long as mounted volumes have names of their own, no string names two
entries, a lookup does not depend on the order of the table, and it never
fails an assertion. -/
theorem names_are_unique (h : Reach vfsStep (fun devs op => op.Fits devs) [] devs) :
    devs.Pairwise Knowndev.Apart ∧ (∀ n, ∃ r, vfsGetroot devs n = .ok r) ∧
      (∀ devs' : List Knowndev, devs'.Perm devs → ∀ n, vfsGetroot devs' n = vfsGetroot devs n) ∧
      ∀ op, ∃ devs', vfsStep devs op = .ok devs' ∧ (devs'.Pairwise Knowndev.Apart ↔ op.Fits devs) := by
  have hok : DevsOk devs := by
    refine h.invariant (I := DevsOk) ⟨List.Pairwise.nil, nofun⟩ fun devs op devs' hd hfit he => ?_
    obtain ⟨devs'', he', hent, hiff⟩ := hd.step op
    obtain rfl := Except.ok.inj (he'.symm.trans he)
    exact ⟨hiff.mpr hfit, hent⟩
  refine ⟨hok.apart, hok.vfsGetroot, fun devs' hp n => vfsGetroot_perm hok.apart hp n, fun op => ?_⟩
  obtain ⟨devs', he, -, hiff⟩ := hok.step op
  exact ⟨devs', he, hiff⟩

def enough : AddMemory := { name := true, rawname := true, vnode := some 0, kd := true, slot := true }

def twoDisks : List Knowndev :=
  [{ kdName := "lhd0", kdRawname := some "lhd0raw", kdDevice := some 0, kdVnode := 0, kdFs := none },
    { kdName := "lhd1", kdRawname := some "lhd1raw", kdDevice := some 1, kdVnode := 0, kdFs := none }]

theorem twoDisks_reach {P : List Knowndev → VfsOp → Prop}
    (h : ∀ devs name dev mountable mem, P devs (.adddev name dev mountable mem)) : Reach vfsStep P [] twoDisks := by
  have h₁ : Reach vfsStep P [] _ := Reach.refl.tail (h [] "lhd0" 0 true enough) rfl
  exact h₁.tail (h _ "lhd1" 1 true enough) rfl

def volume (vol : String) (dev : Nat) : Except Errno Fs := .ok { id := dev, volname := some vol }

def mounted (vol vol' : String) : List Knowndev :=
  [{ kdName := "lhd0", kdRawname := some "lhd0raw", kdDevice := some 0, kdVnode := 0,
     kdFs := some { id := 0, volname := some vol } },
    { kdName := "lhd1", kdRawname := some "lhd1raw", kdDevice := some 1, kdVnode := 0,
      kdFs := some { id := 1, volname := some vol' } }]

theorem volume_fits {vol devname : String} (h : ∀ kd ∈ devs, vol ∉ kd.names) :
    (VfsOp.mount devname (volume vol)).Fits devs := by
  rintro kd - - - - dev fs vol' - hm hvol kd' hk' -
  obtain rfl := Except.ok.inj hm
  obtain rfl := Option.some.inj hvol
  exact h kd' hk'

theorem names_are_unique_two : (mounted "src" "home").Pairwise Knowndev.Apart := by
  have h₁ : Reach vfsStep (fun devs op => op.Fits devs) [] _ :=
    (twoDisks_reach fun _ _ _ _ _ => trivial).tail (a := .mount "lhd0" (volume "src")) (volume_fits (by decide)) rfl
  have h₂ : Reach vfsStep (fun devs op => op.Fits devs) [] (mounted "src" "home") :=
    h₁.tail (a := .mount "lhd1" (volume "home")) (volume_fits (by decide)) rfl
  exact (names_are_unique h₂).1

theorem volume_name_twice : Reach vfsStep (fun _ _ => True) [] (mounted "src" "src") ∧
    vfsGetroot (mounted "src" "src") "src" = .ok (.ok (.fs { id := 0, volname := some "src" })) ∧
    vfsGetroot (mounted "src" "src").reverse "src" = .ok (.ok (.fs { id := 1, volname := some "src" })) := by
  have h₁ : Reach vfsStep (fun _ _ => True) [] _ :=
    (twoDisks_reach fun _ _ _ _ _ => trivial).tail (a := .mount "lhd0" (volume "src")) trivial rfl
  exact ⟨h₁.tail (a := .mount "lhd1" (volume "src")) trivial rfl, by decide, by decide⟩

end Os161
