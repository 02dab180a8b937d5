import Mathlib.Data.List.Nodup
import Os161.Lib.Outcome
import Os161.Reclaim

/-!
# Reference counts under the reclaim race

The count of a vnode is the number of references held, plus one for a thread
that has given up the last one and is about to destroy the vnode. The two
file systems lose this in different ways: sfs lets a lookup in between the
check and the destruction, emufs forgets to take off a reference.
-/

namespace Os161

open Outcome

variable {k : FsKind} {s s' : Race} {v u : Nat} {p q : Pending}

/-- In sfs no lookup is under way when the check passes, and none begins
before the destruction. In emufs nobody has looked the vnode up between the
decision to reclaim it and the check. The device does not fail. -/
def Section.Fits (k : FsKind) (s : Race) (a : Section) : Prop :=
  match k, a with
  | .sfs, .look => ∀ v, .checked v ∉ s.pending
  | .sfs, .check v _ => (s.vnodes v).vnRefcount = 1 → .found v ∉ s.pending
  | .sfs, .destroy _ fails => fails = false
  | .emufs, .check v fails => .decided v ∈ s.pending → (s.vnodes v).vnRefcount = 1 ∧ fails = false
  | _, _ => True

def Race.threads (s : Race) (p : Pending) : Nat := s.pending.count p

def Race.refs (s : Race) (v : Nat) : Nat := s.held v + s.threads (.decided v) + s.threads (.checked v)

structure Race.Unused (s : Race) (v : Nat) : Prop where
  held : s.held v = 0
  decided : s.threads (.decided v) = 0
  checked : s.threads (.checked v) = 0
  found : s.threads (.found v) = 0
  table : v ∉ s.table

structure Race.Used (k : FsKind) (s : Race) (v : Nat) : Prop where
  refcount : (s.vnodes v).vnRefcount = s.refs v
  opencount : (s.vnodes v).vnOpencount = 0
  pos : 1 ≤ s.refs v
  alone : s.threads (.checked v) ≠ 0 → s.refs v = 1 ∧ s.threads (.found v) = 0
  once : s.threads (.decided v) ≤ 1
  sfs : k = .sfs → v ∈ s.table
  emufs : k = .emufs → s.threads (.found v) = 0 ∧ (v ∈ s.table ↔ s.threads (.checked v) = 0)

structure RaceOk (k : FsKind) (s : Race) : Prop where
  fresh : ∀ v, s.next ≤ v → s.Unused v ∧ v ∉ s.killed
  dead : ∀ v ∈ s.killed, s.Unused v
  live : ∀ v < s.next, v ∉ s.killed → s.Used k v
  killed : s.killed.Nodup
  table : s.table.Nodup

theorem Race.Used.of {c : VnodeCounts} {n d h f : Nat} (hvn : s.vnodes v = c) (hheld : s.held v = n)
    (hdec : s.threads (.decided v) = d) (hchk : s.threads (.checked v) = h) (hfnd : s.threads (.found v) = f)
    (href : c.vnRefcount = ((n + d + h : Nat) : Int)) (hopen : c.vnOpencount = 0) (hpos : 1 ≤ n + d + h)
    (halone : h ≠ 0 → n + d + h = 1 ∧ f = 0) (honce : d ≤ 1) (hsfs : k = .sfs → v ∈ s.table)
    (hemu : k = .emufs → f = 0 ∧ (v ∈ s.table ↔ h = 0)) : s.Used k v := by
  subst hvn hheld hdec hchk hfnd
  exact ⟨href, hopen, hpos, halone, honce, hsfs, hemu⟩

/-! ## Frame -/

def Pending.vnode : Pending → Option Nat
  | .found v | .decided v | .checked v => some v
  | .missed => none

structure Race.Agree (s s' : Race) (u : Nat) : Prop where
  held : s'.held u = s.held u
  vnode : s'.vnodes u = s.vnodes u
  threads : ∀ p : Pending, p.vnode = some u → s'.threads p = s.threads p
  table : u ∈ s'.table ↔ u ∈ s.table
  killed : u ∈ s'.killed ↔ u ∈ s.killed

theorem Race.Agree.unused (h : s.Agree s' u) (hu : s.Unused u) : s'.Unused u where
  held := h.held.trans hu.held
  decided := (h.threads _ rfl).trans hu.decided
  checked := (h.threads _ rfl).trans hu.checked
  found := (h.threads _ rfl).trans hu.found
  table := fun ht => hu.table (h.table.mp ht)

theorem Race.Agree.refs (h : s.Agree s' u) : s'.refs u = s.refs u := by
  simp only [Race.refs, h.held, h.threads (.decided u) rfl, h.threads (.checked u) rfl]

theorem Race.Agree.used (h : s.Agree s' u) (hu : s.Used k u) : s'.Used k u where
  refcount := by rw [h.vnode, h.refs]; exact hu.refcount
  opencount := by rw [h.vnode]; exact hu.opencount
  pos := by rw [h.refs]; exact hu.pos
  alone := by rw [h.refs, h.threads (.checked u) rfl, h.threads (.found u) rfl]; exact hu.alone
  once := by rw [h.threads (.decided u) rfl]; exact hu.once
  sfs := by rw [h.table]; exact hu.sfs
  emufs := by rw [h.threads (.found u) rfl, h.threads (.checked u) rfl, h.table]; exact hu.emufs

theorem RaceOk.change (h : RaceOk k s) (hother : ∀ u, u ≠ v → s.Agree s' u) (hnext : s'.next = s.next) (hv : v < s.next)
    (hat : (v ∈ s'.killed ∧ s'.Unused v) ∨ (v ∉ s'.killed ∧ s'.Used k v)) (hk : s'.killed.Nodup) (ht : s'.table.Nodup) :
    RaceOk k s' where
  fresh u hu := by
    rw [hnext] at hu
    obtain ⟨hun, hnot⟩ := h.fresh u hu
    have hne : u ≠ v := by omega
    exact ⟨(hother u hne).unused hun, fun hmem => hnot ((hother u hne).killed.mp hmem)⟩
  dead u hu := by
    rcases eq_or_ne u v with rfl | hne
    · rcases hat with hat | hat
      · exact hat.2
      · exact absurd hu hat.1
    · exact (hother u hne).unused (h.dead u ((hother u hne).killed.mp hu))
  live u hu hnot := by
    rw [hnext] at hu
    rcases eq_or_ne u v with rfl | hne
    · rcases hat with hat | hat
      · exact absurd hat.1 hnot
      · exact hat.2
    · exact (hother u hne).used (h.live u hu fun hmem => hnot ((hother u hne).killed.mpr hmem))
  killed := hk
  table := ht

theorem RaceOk.lt_of_held (h : RaceOk k s) (hv : 0 < s.held v) : v < s.next ∧ v ∉ s.killed := by
  constructor
  · by_contra hlt
    have := (h.fresh v (by omega)).1.held
    omega
  · intro hk
    have := (h.dead v hk).held
    omega

theorem RaceOk.lt_of_pending (h : RaceOk k s) (hp : p ∈ s.pending) (hv : p.vnode = some v) :
    v < s.next ∧ v ∉ s.killed := by
  have hpos : s.threads p ≠ 0 := Nat.ne_of_gt (List.count_pos_iff.mpr hp)
  have hun : ¬ s.Unused v := by
    intro hu
    cases p with
    | missed => cases hv
    | found w => cases hv; exact hpos hu.found
    | decided w => cases hv; exact hpos hu.decided
    | checked w => cases hv; exact hpos hu.checked
  exact ⟨by by_contra hlt; exact hun (h.fresh v (by omega)).1, fun hk => hun (h.dead v hk)⟩

theorem RaceOk.lt_of_table (h : RaceOk k s) (hv : v ∈ s.table) : v < s.next ∧ v ∉ s.killed :=
  ⟨by by_contra hlt; exact (h.fresh v (by omega)).1.table hv, fun hk => (h.dead v hk).table hv⟩

theorem threads_erase (hp : p ∈ s.pending) (q : Pending) :
    { s with pending := s.pending.erase p }.threads q + (if q = p then 1 else 0) = s.threads q := by
  simp only [Race.threads, List.count_erase]
  have := List.count_pos_iff.mpr hp
  by_cases h : q = p
  · subst h
    simp only [beq_self_eq_true, ite_true]
    omega
  · simp [h, Ne.symm h]

theorem threads_cons (s : Race) (p q : Pending) :
    { s with pending := p :: s.pending }.threads q = s.threads q + (if q = p then 1 else 0) := by
  simp only [Race.threads, List.count_cons, beq_iff_eq, @eq_comm _ p q]

/-! ## The sections -/

theorem RaceOk.ref (h : RaceOk k s) (hv : v < s.next) (hk : v ∉ s.killed) (hc : s.threads (.checked v) = 0) :
    RaceOk k (s.ref v) := by
  have hu := h.live v hv hk
  refine h.change (v := v) (fun u hne => ?_) rfl hv (Or.inr ⟨hk, ?_⟩) h.killed h.table
  · exact ⟨Function.update_of_ne hne .., Function.update_of_ne hne .., fun _ _ => rfl, Iff.rfl, Iff.rfl⟩
  · have hrefs : (s.ref v).refs v = s.refs v + 1 := by
      simp only [Race.refs, Race.ref, Race.threads, Function.update_self]
      omega
    have hvn : (s.ref v).vnodes v = vnodeIncref (s.vnodes v) := Function.update_self ..
    refine ⟨?_, by rw [hvn]; exact hu.opencount, by omega, fun hne => absurd hc hne, hu.once, hu.sfs, hu.emufs⟩
    rw [hrefs, hvn]
    simp only [vnodeIncref, hu.refcount]
    omega

theorem RaceOk.add (h : RaceOk k s) : RaceOk k s.add := by
  obtain ⟨hun, hnk⟩ := h.fresh s.next (Nat.le_refl _)
  have hother : ∀ u, u ≠ s.next → s.Agree s.add u := fun u hne =>
    ⟨Function.update_of_ne hne .., Function.update_of_ne hne .., fun _ _ => rfl, by simp [Race.add, hne], Iff.rfl⟩
  have hnew : s.add.Used k s.next := by
    have hrefs : s.add.refs s.next = 1 := by
      have hheld : s.add.held s.next = 1 := Function.update_self ..
      have hd : s.add.threads (.decided s.next) = 0 := hun.decided
      have hc : s.add.threads (.checked s.next) = 0 := hun.checked
      simp only [Race.refs, hheld, hd, hc]
    have hvn : s.add.vnodes s.next = vnodeInit := Function.update_self ..
    have hin : s.next ∈ s.add.table := by simp [Race.add]
    refine ⟨by rw [hrefs, hvn]; rfl, by rw [hvn]; rfl, by omega, fun hne => absurd hun.checked hne, ?_, fun _ => hin,
      fun _ => ⟨hun.found, fun _ => hun.checked, fun _ => hin⟩⟩
    have : s.add.threads (.decided s.next) = 0 := hun.decided
    omega
  refine ⟨fun u hu => ?_, fun u hu => ?_, fun u hu hnot => ?_, h.killed, ?_⟩
  · have hlt : s.next + 1 ≤ u := hu
    have hne : u ≠ s.next := by omega
    obtain ⟨hu', hnot⟩ := h.fresh u (by omega)
    exact ⟨(hother u hne).unused hu', hnot⟩
  · have hne : u ≠ s.next := fun e => hnk (e ▸ hu)
    exact (hother u hne).unused (h.dead u hu)
  · rcases eq_or_ne u s.next with rfl | hne
    · exact hnew
    · have hlt : u < s.next + 1 := hu
      exact (hother u hne).used (h.live u (by omega) hnot)
  · exact List.nodup_append.mpr ⟨h.table, List.nodup_singleton _, by
      simp only [List.mem_singleton, forall_eq]
      exact fun a ha e => hun.table (e ▸ ha)⟩

theorem RaceOk.lookups (h : RaceOk k s) {pending : List Pending}
    (hsame : ∀ v, { s with pending := pending }.threads (.decided v) = s.threads (.decided v) ∧
      { s with pending := pending }.threads (.checked v) = s.threads (.checked v))
    (hfound : ∀ v, { s with pending := pending }.threads (.found v) ≤ s.threads (.found v) ∨
      (k = .sfs ∧ v ∈ s.table ∧ s.threads (.checked v) = 0)) : RaceOk k { s with pending := pending } := by
  have hrefs : ∀ v, { s with pending := pending }.refs v = s.refs v := fun v => by
    simp only [Race.refs, (hsame v).1, (hsame v).2]
  have hunused : ∀ v, s.Unused v → { s with pending := pending }.Unused v := by
    intro v hu
    refine ⟨hu.held, (hsame v).1.trans hu.decided, (hsame v).2.trans hu.checked, ?_, hu.table⟩
    have := hu.found
    rcases hfound v with hf | ⟨-, ht, -⟩
    · omega
    · exact absurd ht hu.table
  refine ⟨fun v hv => ?_, fun v hv => hunused v (h.dead v hv), fun v hv hnot => ?_, h.killed, h.table⟩
  · exact ⟨hunused v (h.fresh v hv).1, (h.fresh v hv).2⟩
  · have hu := h.live v hv hnot
    refine ⟨by rw [hrefs]; exact hu.refcount, hu.opencount, by rw [hrefs]; exact hu.pos, fun hne => ?_,
      by rw [(hsame v).1]; exact hu.once, hu.sfs, fun hk => ?_⟩
    · rw [(hsame v).2] at hne
      rw [hrefs]
      have halone := hu.alone hne
      rcases hfound v with hf | ⟨-, -, hc⟩
      · exact ⟨halone.1, by omega⟩
      · exact absurd hc hne
    · obtain ⟨hzero, ht⟩ := hu.emufs hk
      rw [(hsame v).2]
      rcases hfound v with hf | ⟨hsfs, -⟩
      · exact ⟨by omega, ht⟩
      · rw [hk] at hsfs
        cases hsfs

theorem RaceOk.leave (h : RaceOk k s) (hp : p ∈ s.pending) (hv : p = .missed ∨ ∃ v, p = .found v) :
    RaceOk k { s with pending := s.pending.erase p } := by
  have hne : ∀ q : Pending, q ≠ p → { s with pending := s.pending.erase p }.threads q = s.threads q := by
    intro q hq
    have := threads_erase hp q
    rw [if_neg hq] at this
    omega
  refine h.lookups (fun v => ⟨hne _ ?_, hne _ ?_⟩) fun v => Or.inl ?_
  · rintro rfl
    rcases hv with hv | ⟨v, hv⟩ <;> cases hv
  · rintro rfl
    rcases hv with hv | ⟨v, hv⟩ <;> cases hv
  · have := threads_erase hp (.found v)
    omega

theorem RaceOk.look (h : RaceOk k s) (hfit : Section.look.Fits k s) : RaceOk k (s.look k) := by
  cases ht : s.table with
  | nil =>
    cases k with
    | sfs =>
      have he : s.look .sfs = { s with pending := .missed :: s.pending } := by
        unfold Race.look
        rw [ht]
      rw [he]
      refine h.lookups (fun v => ?_) fun v => Or.inl ?_
      · simp [threads_cons]
      · simp [threads_cons]
    | emufs =>
      have he : s.look .emufs = s.add := by
        unfold Race.look
        rw [ht]
      rw [he]
      exact h.add
  | cons v l =>
    have hv : v ∈ s.table := by simp [ht]
    obtain ⟨hlt, hk⟩ := h.lt_of_table hv
    cases k with
    | sfs =>
      have he : s.look .sfs = { s with pending := .found v :: s.pending } := by
        unfold Race.look
        rw [ht]
      rw [he]
      refine h.lookups (fun u => ?_) fun u => ?_
      · simp [threads_cons]
      · rcases eq_or_ne u v with rfl | hne
        · exact Or.inr ⟨rfl, hv, List.count_eq_zero.mpr (hfit u)⟩
        · exact Or.inl (by simp [threads_cons, hne])
    | emufs =>
      have he : s.look .emufs = s.ref v := by
        unfold Race.look
        rw [ht]
      rw [he]
      exact h.ref hlt hk (((h.live v hlt hk).emufs rfl).2.mp hv)

theorem RaceOk.decref (h : RaceOk k s) (hv : 0 < s.held v) : ∃ s', s.decref v = .ok s' ∧ RaceOk k s' := by
  obtain ⟨hlt, hk⟩ := h.lt_of_held hv
  have hu := h.live v hlt hk
  have href := hu.refcount
  have hpos := hu.pos
  have halone := hu.alone
  have hemu := hu.emufs
  simp only [Race.refs] at href hpos halone
  -- a vnode that is held is not being destroyed
  have hc : s.threads (.checked v) = 0 := by
    by_contra hne
    have := (halone hne).1
    omega
  unfold Race.decref vnodeDecref
  rw [if_neg (by omega)]
  by_cases hone : 1 < (s.vnodes v).vnRefcount
  · rw [if_pos hone]
    refine ⟨_, rfl, h.change (v := v) (fun u hne => ?_) rfl hlt (Or.inr ⟨hk, ?_⟩) h.killed h.table⟩
    · exact ⟨Function.update_of_ne hne .., Function.update_of_ne hne .., fun _ _ => rfl, Iff.rfl, Iff.rfl⟩
    · refine Race.Used.of (n := s.held v - 1) (d := s.threads (.decided v)) (h := 0) (Function.update_self ..)
        (Function.update_self ..) rfl hc rfl ?_ hu.opencount (by omega) (by omega) hu.once hu.sfs (by rwa [hc] at hemu)
      dsimp only
      omega
  · rw [if_neg hone]
    have hd : s.threads (.decided v) = 0 := by omega
    refine ⟨_, rfl, h.change (v := v) (fun u hne => ?_) rfl hlt (Or.inr ⟨hk, ?_⟩) h.killed h.table⟩
    · refine ⟨Function.update_of_ne hne .., Function.update_of_ne hne .., fun q hq => ?_, Iff.rfl, Iff.rfl⟩
      have hqne : q ≠ .decided v := by
        rintro rfl
        exact hne (Option.some.inj hq).symm
      exact (threads_cons s _ q).trans (by simp [hqne])
    · refine Race.Used.of (d := 1) (h := 0) (Function.update_self ..) (Function.update_self ..) ?_ ?_ ?_ ?_ hu.opencount
        (by omega) (by omega) (by omega) hu.sfs (by rwa [hc] at hemu)
      · exact (threads_cons s _ _).trans (by simp [hd])
      · exact (threads_cons s _ _).trans (by simp [hc])
      · exact (threads_cons s _ _).trans (by simp)
      · omega

theorem agree_decided {s' : Race} (hp : .decided v ∈ s.pending) (hu : u ≠ v) (hheld : s'.held u = s.held u)
    (hvn : s'.vnodes u = s.vnodes u) (ht : u ∈ s'.table ↔ u ∈ s.table) (hk : s'.killed = s.killed)
    (hpend : s'.pending = s.pending.erase (.decided v) ∨ s'.pending = .checked v :: s.pending.erase (.decided v)) :
    s.Agree s' u := by
  refine ⟨hheld, hvn, fun q hq => ?_, ht, by rw [hk]⟩
  have hd : q ≠ .decided v := by rintro rfl; exact hu (Option.some.inj hq).symm
  have hc : q ≠ .checked v := by rintro rfl; exact hu (Option.some.inj hq).symm
  have := threads_erase hp q
  rw [if_neg hd] at this
  simp only [Race.threads] at this ⊢
  rcases hpend with e | e <;> rw [e]
  · omega
  · rw [List.count_cons_of_ne hc.symm]
    omega

theorem threads_passed {s' : Race} (hp : .decided v ∈ s.pending)
    (e : s'.pending = .checked v :: s.pending.erase (.decided v)) :
    s'.threads (.decided v) + 1 = s.threads (.decided v) ∧ s'.threads (.checked v) = s.threads (.checked v) + 1 ∧
      s'.threads (.found v) = s.threads (.found v) := by
  have hd := threads_erase hp (.decided v)
  have hc := threads_erase hp (.checked v)
  have hf := threads_erase hp (.found v)
  rw [if_pos rfl] at hd
  rw [if_neg nofun] at hc hf
  simp only [Race.threads] at hd hc hf ⊢
  rw [e]
  simp only [List.count_cons, beq_iff_eq, reduceCtorEq, ite_false, ite_true]
  omega

theorem RaceOk.check {fails : Bool} (h : RaceOk k s) (hp : .decided v ∈ s.pending)
    (hfit : (Section.check v fails).Fits k s) :
    ∃ s', raceStep k s (.check v fails) = .ok s' ∧ RaceOk k s' := by
  obtain ⟨hlt, hk⟩ := h.lt_of_pending hp rfl
  have hu := h.live v hlt hk
  have href := hu.refcount
  have hpos := hu.pos
  have halone := hu.alone
  have honce := hu.once
  simp only [Race.refs] at href hpos halone
  have hmem : 1 ≤ s.threads (.decided v) := List.count_pos_iff.mpr hp
  have hd := threads_erase hp (.decided v)
  have hc := threads_erase hp (.checked v)
  have hf := threads_erase hp (.found v)
  rw [if_pos rfl] at hd
  rw [if_neg nofun] at hc hf
  have hc₀ : s.threads (.checked v) = 0 := by omega
  simp only [raceStep, Section.continues, hp, if_true]
  cases k with
  | sfs =>
    simp only [sfsReclaimCheck]
    by_cases hone : (s.vnodes v).vnRefcount = 1
    · rw [if_neg (by simpa using hone)]
      refine ⟨_, rfl, h.change (v := v) (fun u hne => agree_decided hp hne rfl rfl Iff.rfl rfl (Or.inr rfl)) rfl hlt
        (Or.inr ⟨hk, ?_⟩) h.killed h.table⟩
      have hnf : s.threads (.found v) = 0 := List.count_eq_zero.mpr (hfit hone)
      obtain ⟨hd', hc', hf'⟩ := @threads_passed s v
        { s with pending := .checked v :: s.pending.erase (.decided v) } hp rfl
      exact Race.Used.of (c := s.vnodes v) (n := s.held v) (d := 0) (h := 1) (f := 0) rfl rfl (by omega)
        (by omega) (by omega) (by omega) hu.opencount (by omega) (by omega) (by omega) hu.sfs nofun
    · rw [if_pos hone, if_neg (by omega)]
      refine ⟨_, rfl, h.change (v := v) (fun u hne => agree_decided hp hne
        rfl (Function.update_of_ne hne ..) Iff.rfl rfl (Or.inl rfl)) rfl hlt (Or.inr ⟨hk, ?_⟩) h.killed h.table⟩
      refine Race.Used.of (n := s.held v) (d := 0) (h := 0) (f := s.threads (.found v))
        (Function.update_self ..) rfl ?_ ?_ hf ?_ hu.opencount (by omega) nofun (by omega) hu.sfs nofun
      · exact (show _ = _ from by omega : { s with pending := s.pending.erase (.decided v) }.threads (.decided v) = 0)
      · exact hc.trans hc₀
      · dsimp only
        omega
  | emufs =>
    obtain ⟨hnf, hlist⟩ := hu.emufs rfl
    simp only [emufsReclaimCheck]
    rw [if_neg (by simpa using (hfit hp).1), if_neg (by simp [(hfit hp).2]), if_neg (by simpa using hlist.mpr hc₀)]
    refine ⟨_, rfl, h.change (v := v) (fun u hne => agree_decided hp hne rfl rfl ?_ rfl (Or.inr rfl)) rfl hlt
      (Or.inr ⟨hk, ?_⟩) h.killed (h.table.erase v)⟩
    · exact List.mem_erase_of_ne hne
    · have hone := (hfit hp).1
      obtain ⟨hd', hc', hf'⟩ := @threads_passed s v
        { s with pending := .checked v :: s.pending.erase (.decided v), table := s.table.erase v } hp rfl
      exact Race.Used.of (c := s.vnodes v) (n := s.held v) (d := 0) (h := 1) (f := 0) rfl rfl (by omega)
        (by omega) (by omega) (by omega) hu.opencount (by omega) (by omega) (by omega) nofun
        fun _ => ⟨rfl, fun hin => absurd hin h.table.not_mem_erase, nofun⟩

theorem RaceOk.destroy {fails : Bool} (h : RaceOk k s) (hp : .checked v ∈ s.pending)
    (hfit : (Section.destroy v fails).Fits k s) : ∃ s', raceStep k s (.destroy v fails) = .ok s' ∧ RaceOk k s' := by
  obtain ⟨hlt, hk⟩ := h.lt_of_pending hp rfl
  have hu := h.live v hlt hk
  have hmem : 1 ≤ s.threads (.checked v) := List.count_pos_iff.mpr hp
  obtain ⟨hone, hfound⟩ := hu.alone (by omega)
  have href := hu.refcount
  have hkill : vnodeKill (s.vnodes v) = .ok { vnRefcount := 0, vnOpencount := 0 } := by
    simp [vnodeKill, hu.opencount, href, hone]
  simp only [Race.refs] at hone
  -- what both file systems leave behind
  have hdone : ∀ table : List Nat, (∀ u, u ≠ v → (u ∈ table ↔ u ∈ s.table)) → v ∉ table → table.Nodup →
      RaceOk k { s with
        pending := s.pending.erase (.checked v), table := table,
        vnodes := Function.update s.vnodes v { vnRefcount := 0, vnOpencount := 0 }, killed := v :: s.killed } := by
    intro table htable hnot hnd
    refine h.change (v := v) (fun u hne => ?_) rfl hlt (Or.inl ⟨List.mem_cons_self .., ?_⟩)
      (List.nodup_cons.mpr ⟨hk, h.killed⟩) hnd
    · refine ⟨rfl, Function.update_of_ne hne .., fun q hq => ?_, htable u hne, by simp [hne]⟩
      have := threads_erase hp q
      rwa [if_neg (by rintro rfl; exact hne (Option.some.inj hq).symm)] at this
    · have hd := threads_erase hp (.decided v)
      have hc := threads_erase hp (.checked v)
      have hf := threads_erase hp (.found v)
      rw [if_neg nofun] at hd hf
      rw [if_pos rfl] at hc
      refine ⟨(by omega : s.held v = 0), hd.trans (by omega), ?_, hf.trans hfound, hnot⟩
      exact (by omega : { s with pending := s.pending.erase (.checked v) }.threads (.checked v) = 0)
  simp only [raceStep, Section.continues, hp, if_true]
  cases k with
  | sfs =>
    simp only [sfsReclaimDestroy, Race.kill, hkill]
    rw [if_neg (by simp [show fails = false from hfit]), if_neg (by simpa using hu.sfs rfl)]
    exact ⟨_, rfl, hdone _ (fun u hne => List.mem_erase_of_ne hne) h.table.not_mem_erase (h.table.erase v)⟩
  | emufs =>
    simp only [Race.kill, hkill]
    have hnot : v ∉ s.table := fun hin => by
      have := (hu.emufs rfl).2.mp hin
      omega
    exact ⟨_, rfl, hdone _ (fun u _ => Iff.rfl) hnot h.table⟩

/-! ## Runs -/

theorem RaceOk.step (h : RaceOk k s) {a : Section} (hfit : a.Fits k s) : ∃ s', raceStep k s a = .ok s' ∧
    RaceOk k s' := by
  by_cases hp : ∃ p, a.continues = some p ∧ p ∉ s.pending
  · obtain ⟨p, hc, hp⟩ := hp
    refine ⟨s, ?_, h⟩
    simp only [raceStep, hc, hp, if_false]
  have hp : ∀ p, a.continues = some p → p ∈ s.pending := fun p hc => by
    by_contra hn
    exact hp ⟨p, hc, hn⟩
  cases a with
  | look => exact ⟨_, rfl, h.look hfit⟩
  | incref v =>
    have hp := hp _ rfl
    obtain ⟨hlt, hk⟩ := h.lt_of_pending hp rfl
    have hmem : s.threads (.found v) ≠ 0 := Nat.ne_of_gt (List.count_pos_iff.mpr hp)
    simp only [raceStep, Section.continues, hp, if_true]
    refine ⟨_, rfl, (h.leave hp (Or.inr ⟨v, rfl⟩)).ref hlt hk ?_⟩
    by_contra hne
    have hc := threads_erase hp (.checked v)
    rw [if_neg nofun] at hc
    exact hmem ((h.live v hlt hk).alone (by omega)).2
  | load =>
    have hp := hp _ rfl
    simp only [raceStep, Section.continues, hp, if_true]
    exact ⟨_, rfl, (h.leave hp (Or.inl rfl)).add⟩
  | share v =>
    simp only [raceStep, Section.continues]
    split
    · rename_i hv
      obtain ⟨hlt, hk⟩ := h.lt_of_held hv
      refine ⟨_, rfl, h.ref hlt hk ?_⟩
      by_contra hne
      have := ((h.live v hlt hk).alone hne).1
      simp only [Race.refs] at this
      omega
    · exact ⟨_, rfl, h⟩
  | decref v =>
    simp only [raceStep, Section.continues]
    split
    · rename_i hv
      exact h.decref hv
    · exact ⟨_, rfl, h⟩
  | check v fails => exact h.check (hp _ rfl) hfit
  | destroy v fails => exact h.destroy (hp _ rfl) hfit

theorem RaceOk.start (k : FsKind) : RaceOk k Race.start :=
  ⟨fun _ _ => ⟨⟨rfl, rfl, rfl, rfl, List.not_mem_nil⟩, List.not_mem_nil⟩, fun _ hv => absurd hv List.not_mem_nil,
    fun v hv => absurd hv (Nat.not_lt_zero v), List.nodup_nil, List.nodup_nil⟩

/-- A vnode is destroyed at most once and never while it is referenced. When
no call is under way it is gone just when nobody holds it, and else its
count is the number of references held. No assertion fails. -/
theorem vnode_counts_survive_reclaim (h : Reach (raceStep k) (fun s a => a.Fits k s) Race.start s) :
    s.killed.Nodup ∧ (∀ v ∈ s.killed, s.held v = 0) ∧
      (s.pending = [] → ∀ v < s.next, (v ∈ s.killed ↔ s.held v = 0) ∧
        (v ∉ s.killed → (s.vnodes v).vnRefcount = s.held v)) ∧
      ∀ a, a.Fits k s → ∃ s', raceStep k s a = .ok s' := by
  have hok : RaceOk k s := by
    refine h.invariant (I := RaceOk k) (RaceOk.start k) fun s a s' hs hfit he => ?_
    obtain ⟨s'', he', h'⟩ := hs.step hfit
    obtain rfl := Except.ok.inj (he'.symm.trans he)
    exact h'
  refine ⟨hok.killed, fun v hv => (hok.dead v hv).held, fun hq v hv => ?_, fun a hfit => ?_⟩
  · have hrefs : s.refs v = s.held v := by simp [Race.refs, Race.threads, hq]
    refine ⟨⟨fun hk => (hok.dead v hk).held, fun hz => ?_⟩, fun hk => ?_⟩
    · by_contra hk
      have := (hok.live v hv hk).pos
      omega
    · rw [(hok.live v hv hk).refcount, hrefs]
  · obtain ⟨s', he, -⟩ := hok.step hfit
    exact ⟨s', he⟩

def ran (k : FsKind) (l : List Section) : Race :=
  match l.foldlM (raceStep k) Race.start with
  | .ok s => s
  | .error _ => Race.start

theorem vnode_counts_survive_reclaim_once :
    (ran .sfs [.look, .load, .decref 0, .check 0 false, .destroy 0 false]).killed = [0] ∧
      (ran .sfs [.look, .load, .decref 0, .check 0 false, .destroy 0 false]).held 0 = 0 := by
  have h₁ : Reach (raceStep .sfs) (fun s a => a.Fits .sfs s) Race.start (ran .sfs [.look]) :=
    Reach.refl.tail (a := .look) (fun _ => List.not_mem_nil) rfl
  have h₂ : Reach (raceStep .sfs) (fun s a => a.Fits .sfs s) Race.start (ran .sfs [.look, .load]) :=
    h₁.tail (a := .load) trivial rfl
  have h₃ : Reach (raceStep .sfs) (fun s a => a.Fits .sfs s) Race.start (ran .sfs [.look, .load, .decref 0]) :=
    h₂.tail (a := .decref 0) trivial rfl
  have h₄ : Reach (raceStep .sfs) (fun s a => a.Fits .sfs s) Race.start
      (ran .sfs [.look, .load, .decref 0, .check 0 false]) :=
    h₃.tail (a := .check 0 false) (fun _ => by decide) rfl
  have h₅ : Reach (raceStep .sfs) (fun s a => a.Fits .sfs s) Race.start
      (ran .sfs [.look, .load, .decref 0, .check 0 false, .destroy 0 false]) := h₄.tail (a := .destroy 0 false) rfl rfl
  exact ⟨rfl, (vnode_counts_survive_reclaim h₅).2.1 0 (by decide)⟩

theorem reclaim_loses_count :
    (∃ s, Reach (raceStep .sfs) (fun _ _ => True) Race.start s ∧ s.pending = [] ∧ s.held 0 = 1 ∧ s.killed = [0]) ∧
      ∃ s, Reach (raceStep .emufs) (fun _ _ => True) Race.start s ∧ s.pending = [] ∧ s.held 0 = 1 ∧ s.killed = [] ∧
        (s.vnodes 0).vnRefcount = 2 := by
  refine ⟨⟨ran .sfs [.look, .load, .decref 0, .look, .check 0 false, .destroy 0 false, .incref 0], ?_, rfl, rfl, rfl⟩,
    ⟨ran .emufs [.look, .decref 0, .look, .check 0 false], ?_, rfl, rfl, rfl, rfl⟩⟩
  · exact Reach.of_foldlM (l := [.look, .load, .decref 0, .look, .check 0 false, .destroy 0 false, .incref 0])
      (fun _ _ _ => trivial) rfl
  · exact Reach.of_foldlM (l := [.look, .decref 0, .look, .check 0 false]) (fun _ _ _ => trivial) rfl

end Os161
