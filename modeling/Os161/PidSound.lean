import Os161.Pid
import Os161.Lib.Outcome

/-!
# Process ids are unique and recycled when both sides are done

An entry of the unavailable list has the status the calls since its pid was
handed out leave (`statusSince`), and that status is never `PID_FREE`; the
entries of the recycled list are the pids whose status became `PID_FREE`.
-/

namespace Os161

open Outcome

variable {x y m : Nat} {mem : Bool} {l l' : List PidClist} {r r' : List Nat} {found found' : Bool} {s s' : Pids}

/-! ## Changing the status of one entry -/

def Changed (x m : Nat) (l : List PidClist) (r : List Nat) (l' : List PidClist) (r' : List Nat) : Prop :=
  ∃ l₁ e l₂, l = l₁ ++ e :: l₂ ∧ e.pid = x ∧
    ((e.status &&& m = pidFree ∧ l' = l₁ ++ l₂ ∧ r' = x :: r) ∨
      (e.status &&& m ≠ pidFree ∧ l' = l₁ ++ { e with status := e.status &&& m } :: l₂ ∧ r' = r))

theorem Changed.cons (e : PidClist) (h : Changed x m l r l' r') : Changed x m (e :: l) r (e :: l') r' := by
  obtain ⟨l₁, e₀, l₂, rfl, he, ⟨hz, rfl, rfl⟩ | ⟨hz, rfl, rfl⟩⟩ := h
  · exact ⟨e :: l₁, e₀, l₂, rfl, he, Or.inl ⟨hz, rfl, rfl⟩⟩
  · exact ⟨e :: l₁, e₀, l₂, rfl, he, Or.inr ⟨hz, rfl, rfl⟩⟩

theorem pidChangeLoop_absent (hx : x ∉ l.map PidClist.pid) : pidChangeLoop x m mem l r found = .ok (l, r, found) := by
  induction l generalizing r found with
  | nil => rfl
  | cons e rest ih =>
    simp only [List.map_cons, List.mem_cons, not_or] at hx
    have he : ¬ e.pid = x := fun h => hx.1 h.symm
    cases rest with
    | nil => simp only [pidChangeLoop, if_neg he]
    | cons e' rest =>
      simp only [pidChangeLoop, if_neg he, ih hx.2]
      rfl

theorem pidChangeLoop_changed (hd : (l.map PidClist.pid).Nodup) (hx : x ∈ l.map PidClist.pid)
    (h : pidChangeLoop x m mem l r found = .ok (l', r', found')) : Changed x m l r l' r' ∧ found' = true := by
  induction l generalizing l' with
  | nil => exact absurd hx List.not_mem_nil
  | cons e rest ih =>
    rw [List.map_cons, List.nodup_cons] at hd
    by_cases he : e.pid = x
    · subst he
      -- nothing behind the entry has its pid
      have hskip : ∀ r₁, pidChangeLoop e.pid m mem rest r₁ true = .ok (rest, r₁, true) := fun _ =>
        pidChangeLoop_absent hd.1
      by_cases hz : e.status &&& m = pidFree
      · cases rest with
        | nil => simp [pidChangeLoop, hz] at h
        | cons e' rest =>
          have hrest : e.pid ∉ rest.map PidClist.pid := fun hm => hd.1 (List.mem_cons_of_mem _ hm)
          simp only [pidChangeLoop, if_pos hz, if_true, pidChangeLoop_absent hrest, ok_bind] at h
          split at h
          · cases h
          simp only [Except.ok.injEq, Prod.mk.injEq] at h
          obtain ⟨rfl, rfl, rfl⟩ := h
          exact ⟨⟨[], e, e' :: rest, rfl, rfl, Or.inl ⟨hz, rfl, rfl⟩⟩, rfl⟩
      · have h' : Except.ok ({ e with status := e.status &&& m } :: rest, r, true) =
            (.ok (l', r', found') : Except PidFault _) := by
          rw [← h]
          cases rest with
          | nil => simp only [pidChangeLoop, if_neg hz, if_true]
          | cons e' rest =>
            simp only [pidChangeLoop, if_neg hz, if_true, hskip]
            rfl
        simp only [Except.ok.injEq, Prod.mk.injEq] at h'
        obtain ⟨rfl, rfl, rfl⟩ := h'
        exact ⟨⟨[], e, rest, rfl, rfl, Or.inr ⟨hz, rfl, rfl⟩⟩, rfl⟩
    · have hx' : x ∈ rest.map PidClist.pid := List.mem_of_ne_of_mem (Ne.symm he) hx
      cases rest with
      | nil => exact absurd hx' List.not_mem_nil
      | cons e' rest =>
        simp only [pidChangeLoop, if_neg he] at h
        obtain ⟨⟨l₀, r₀, f₀⟩, h₀, h₁⟩ := bind_eq_ok.mp h
        simp only [Except.ok.injEq, Prod.mk.injEq] at h₁
        obtain ⟨rfl, rfl, rfl⟩ := h₁
        obtain ⟨hc, hf⟩ := ih hd.2 hx' h₀
        exact ⟨hc.cons e, hf⟩

theorem pidClaimed_iff : pidClaimed x s = true ↔ x ∈ s.unavailablePids.map PidClist.pid := by
  simp [pidClaimed]

theorem pidChangeStatus_changed (hd : (s.unavailablePids.map PidClist.pid).Nodup) (hx : pidClaimed x s = true)
    (h : pidChangeStatus x m mem s = .ok s') :
    Changed x m s.unavailablePids s.recycledPids s'.unavailablePids s'.recycledPids ∧ s'.unusedPids = s.unusedPids := by
  rw [pidClaimed_iff] at hx
  unfold pidChangeStatus at h
  cases hl : s.unavailablePids with
  | nil => rw [hl] at hx; exact absurd hx List.not_mem_nil
  | cons e rest =>
    rw [hl] at h hd hx
    by_cases he : e.pid = x
    · subst he
      by_cases hz : e.status &&& m = pidFree
      · simp only [if_pos hz, if_true] at h
        split at h
        · cases h
        obtain rfl := Except.ok.inj h
        exact ⟨⟨[], e, rest, rfl, rfl, Or.inl ⟨hz, rfl, rfl⟩⟩, rfl⟩
      · simp only [if_neg hz, if_true, Except.ok.injEq] at h
        subst h
        exact ⟨⟨[], e, rest, rfl, rfl, Or.inr ⟨hz, rfl, rfl⟩⟩, rfl⟩
    · have hx' : x ∈ rest.map PidClist.pid := List.mem_of_ne_of_mem (Ne.symm he) hx
      simp only [if_neg he] at h
      obtain ⟨⟨l₀, r₀, f₀⟩, h₀, h₁⟩ := bind_eq_ok.mp h
      obtain ⟨hc, rfl⟩ := pidChangeLoop_changed (List.nodup_cons.mp hd).2 hx' h₀
      simp only [if_true, Except.ok.injEq] at h₁
      subst h₁
      exact ⟨hc.cons e, rfl⟩

def LastFreed (x m : Nat) (l : List PidClist) : Prop :=
  ∃ e₀ l₁ e, l = e₀ :: (l₁ ++ [e]) ∧ e.pid = x ∧ e.status &&& m = pidFree

def Freed (x m : Nat) (l : List PidClist) : Prop := ∃ e ∈ l, e.pid = x ∧ e.status &&& m = pidFree

theorem pidChangeLoop_nullPointer {l₁ : List PidClist} {e : PidClist} (hd : ((l₁ ++ [e]).map PidClist.pid).Nodup)
    (hz : e.status &&& m = pidFree) : pidChangeLoop e.pid m mem (l₁ ++ [e]) r found = .error .nullPointer := by
  induction l₁ with
  | nil => simp [pidChangeLoop, hz]
  | cons a l₁ ih =>
    rw [List.cons_append, List.map_cons, List.nodup_cons] at hd
    have ha : ¬ a.pid = e.pid := fun h => hd.1 (by simp [h])
    obtain ⟨b, l₂, hb⟩ : ∃ b l₂, l₁ ++ [e] = b :: l₂ := List.exists_cons_of_ne_nil (by simp)
    rw [List.cons_append, hb]
    simp only [pidChangeLoop, if_neg ha]
    rw [← hb, ih hd.2]
    rfl

theorem pidChangeLoop_returns (hd : (l.map PidClist.pid).Nodup)
    (hlast : ∀ l₁ e, l = l₁ ++ [e] → e.pid = x → e.status &&& m ≠ pidFree) (hmem : Freed x m l → mem = true) :
    ∃ res, pidChangeLoop x m mem l r found = .ok res := by
  induction l generalizing r found with
  | nil => exact ⟨_, rfl⟩
  | cons e rest ih =>
    rw [List.map_cons, List.nodup_cons] at hd
    have hrest : ∀ {r found}, ∃ res, pidChangeLoop x m mem rest r found = .ok res := by
      intro r found
      refine ih hd.2 (fun l₁ e₁ hl => hlast (e :: l₁) e₁ ?_) fun ⟨e₁, he₁, hf⟩ =>
        hmem ⟨e₁, List.mem_cons_of_mem _ he₁, hf⟩
      rw [hl]
      rfl
    cases rest with
    | nil =>
      by_cases he : e.pid = x
      · have hz := hlast [] e rfl he
        exact ⟨([{ e with status := e.status &&& m }], r, true), by simp only [pidChangeLoop, if_pos he, if_neg hz]⟩
      · exact ⟨([e], r, found), by simp only [pidChangeLoop, if_neg he]⟩
    | cons e' rest =>
      by_cases he : e.pid = x
      · subst he
        by_cases hz : e.status &&& m = pidFree
        · have hskip : e.pid ∉ rest.map PidClist.pid := fun hm => hd.1 (List.mem_cons_of_mem _ hm)
          refine ⟨(e' :: rest, e.pid :: r, true), ?_⟩
          simp only [pidChangeLoop, if_true, if_pos hz, hmem ⟨e, List.mem_cons_self, rfl, hz⟩,
            pidChangeLoop_absent hskip]
          rfl
        · obtain ⟨⟨l', r', found'⟩, hres⟩ := @hrest r true
          refine ⟨({ e with status := e.status &&& m } :: l', r', found'), ?_⟩
          simp only [pidChangeLoop, if_true, if_neg hz, hres]
          rfl
      · obtain ⟨⟨l', r', found'⟩, hres⟩ := @hrest r found
        refine ⟨(e :: l', r', found'), ?_⟩
        simp only [pidChangeLoop, if_neg he, hres]
        rfl

theorem pidChangeStatus_returns (hd : (s.unavailablePids.map PidClist.pid).Nodup) (hx : pidClaimed x s = true)
    (hlast : ¬ LastFreed x m s.unavailablePids) (hmem : Freed x m s.unavailablePids → mem = true) :
    ∃ s', pidChangeStatus x m mem s = .ok s' := by
  rw [pidClaimed_iff] at hx
  unfold pidChangeStatus
  cases hl : s.unavailablePids with
  | nil =>
    rw [hl] at hx
    exact absurd hx List.not_mem_nil
  | cons e rest =>
    rw [hl] at hd hx hlast hmem
    by_cases he : e.pid = x
    · simp only [if_pos he]
      split
      · rename_i hz
        rw [hmem ⟨e, List.mem_cons_self, he, hz⟩]
        exact ⟨_, rfl⟩
      · exact ⟨_, rfl⟩
    · have hx' : x ∈ rest.map PidClist.pid := List.mem_of_ne_of_mem (Ne.symm he) hx
      have hdr := (List.nodup_cons.mp hd).2
      obtain ⟨⟨l', r', found'⟩, hres⟩ := @pidChangeLoop_returns x m mem rest s.recycledPids false hdr
        (fun l₁ e₁ hl₁ he₁ hz => hlast ⟨e, l₁, e₁, by rw [hl₁], he₁, hz⟩)
        fun ⟨e₁, he₁, hf⟩ => hmem ⟨e₁, List.mem_cons_of_mem _ he₁, hf⟩
      obtain ⟨-, rfl⟩ := pidChangeLoop_changed hdr hx' hres
      refine ⟨{ s with recycledPids := r', unavailablePids := e :: l' }, ?_⟩
      simp only [if_neg he, hres]
      rfl

theorem pidChangeLoop_noMemory (hd : (l.map PidClist.pid).Nodup) (hf : Freed x m l) :
    pidChangeLoop x m false l r found = .error .nullPointer := by
  induction l with
  | nil =>
    obtain ⟨e, he, -⟩ := hf
    exact absurd he List.not_mem_nil
  | cons e rest ih =>
    rw [List.map_cons, List.nodup_cons] at hd
    obtain ⟨e₁, he₁, rfl, hz⟩ := hf
    rcases List.mem_cons.mp he₁ with rfl | he₁
    · cases rest <;> simp [pidChangeLoop, hz]
    · have hne : ¬ e.pid = e₁.pid := fun h => hd.1 (h ▸ List.mem_map_of_mem he₁)
      cases rest with
      | nil => exact absurd he₁ List.not_mem_nil
      | cons e' rest =>
        simp only [pidChangeLoop, if_neg hne, ih hd.2 ⟨e₁, he₁, rfl, hz⟩]
        rfl

theorem pidChangeStatus_noMemory (hd : (s.unavailablePids.map PidClist.pid).Nodup) (hf : Freed x m s.unavailablePids) :
    pidChangeStatus x m false s = .error .nullPointer := by
  unfold pidChangeStatus
  cases hl : s.unavailablePids with
  | nil =>
    obtain ⟨e, he, -⟩ := hf
    rw [hl] at he
    exact absurd he List.not_mem_nil
  | cons e rest =>
    rw [hl, List.map_cons, List.nodup_cons] at hd
    rw [hl] at hf
    obtain ⟨e₁, he₁, rfl, hz⟩ := hf
    rcases List.mem_cons.mp he₁ with rfl | he₁
    · simp [hz]
    · have hne : ¬ e.pid = e₁.pid := fun h => hd.1 (h ▸ List.mem_map_of_mem he₁)
      simp only [if_neg hne, pidChangeLoop_noMemory hd.2 ⟨e₁, he₁, rfl, hz⟩]
      rfl

/-- The call returns, with the entry of `x` changed or gone and nothing else
touched, unless an entry has to go and it is the last one of several or there is
no memory. -/
theorem pidChangeStatus_safe_iff (hd : (s.unavailablePids.map PidClist.pid).Nodup)
    (hx : x ∈ s.unavailablePids.map PidClist.pid) :
    (∃ s', pidChangeStatus x m mem s = .ok s' ∧ s'.unusedPids = s.unusedPids ∧
      Changed x m s.unavailablePids s.recycledPids s'.unavailablePids s'.recycledPids) ↔
    ¬ LastFreed x m s.unavailablePids ∧ (Freed x m s.unavailablePids → mem = true) := by
  have hclaimed := pidClaimed_iff.mpr hx
  constructor
  · rintro ⟨s', hs', -⟩
    refine ⟨?_, fun hf => ?_⟩
    · rintro ⟨e₀, l₁, e, hl, rfl, hz⟩
      rw [hl, List.map_cons, List.nodup_cons] at hd
      have he : ¬ e₀.pid = e.pid := fun h => hd.1 (by simp [h])
      unfold pidChangeStatus at hs'
      simp only [hl, if_neg he, pidChangeLoop_nullPointer hd.2 hz] at hs'
      cases hs'
    · by_contra hmem
      rw [Bool.not_eq_true] at hmem
      rw [hmem, pidChangeStatus_noMemory hd hf] at hs'
      cases hs'
  · rintro ⟨hlast, hmem⟩
    obtain ⟨s', hs'⟩ := pidChangeStatus_returns hd hclaimed hlast hmem
    have hchanged := pidChangeStatus_changed hd hclaimed hs'
    exact ⟨s', hs', hchanged.2, hchanged.1⟩

theorem pidChangeStatus_safe_iff_newest :
    ∃ s', pidChangeStatus 101 pidExited true
        { unusedPids := 102, recycledPids := [], unavailablePids := [⟨101, 1⟩, ⟨100, 3⟩] } = .ok s' ∧
      s'.unusedPids = 102 ∧
      Changed 101 pidExited [⟨101, 1⟩, ⟨100, 3⟩] [] s'.unavailablePids s'.recycledPids := by
  refine (pidChangeStatus_safe_iff (by decide) (by decide)).mpr ⟨?_, fun _ => rfl⟩
  rintro ⟨e₀, l₁, e, hl, he, -⟩
  cases l₁ with
  | nil =>
    cases hl
    cases he
  | cons a l₁ =>
    have hlen := congrArg List.length hl
    simp at hlen

theorem pidChangeStatus_oldest_null :
    (([⟨101, 3⟩, ⟨100, 1⟩] : List PidClist).map PidClist.pid).Nodup ∧
      100 ∈ ([⟨101, 3⟩, ⟨100, 1⟩] : List PidClist).map PidClist.pid ∧
      pidChangeStatus 100 pidExited true
        { unusedPids := 102, recycledPids := [], unavailablePids := [⟨101, 3⟩, ⟨100, 1⟩] } = .error .nullPointer :=
  ⟨by decide, by decide, rfl⟩

/-! ## The status a pid has earned -/

def PidCall.mask : PidCall → Nat
  | .parentDone => pidParent
  | .processExit => pidExited
  | .free => pidFree

def statusSince (x : Nat) : List PidEvent → Nat
  | [] => pidNew
  | .called c y :: evs => if y = x then statusSince x evs &&& c.mask else statusSince x evs
  | .handedOut _ :: evs => statusSince x evs

theorem statusSince_eq (x : Nat) (evs : List PidEvent) :
    statusSince x evs = (if .called .free x ∈ evs then pidFree else pidNew) &&&
      ((if .called .parentDone x ∈ evs then pidParent else pidNew) &&&
        (if .called .processExit x ∈ evs then pidExited else pidNew)) := by
  induction evs with
  | nil => simp [statusSince]
  | cons ev evs ih =>
    cases ev with
    | handedOut y => simp [statusSince, ih]
    | called c y =>
      by_cases hy : y = x
      · subst hy
        simp only [statusSince, if_true, ih, List.mem_cons, PidEvent.called.injEq, and_true]
        cases c <;> split_ifs <;> simp_all [PidCall.mask, pidFree, pidParent, pidExited, pidNew]
      · have hy' : ¬ x = y := fun h => hy h.symm
        simp [statusSince, hy, hy', ih]

theorem statusSince_free_iff {evs : List PidEvent} : statusSince x evs = pidFree ↔ BothDone x evs := by
  rw [statusSince_eq, BothDone]
  split_ifs <;> simp_all [pidFree, pidParent, pidExited, pidNew]

theorem since_handedOut (x : Nat) (log : List PidEvent) : since x (.handedOut x :: log) = [] := by
  simp [since]

theorem since_cons {ev : PidEvent} (h : ev ≠ .handedOut x) (log : List PidEvent) :
    since x (ev :: log) = ev :: since x log := by
  simp [since, h]

/-! ## The invariant -/

structure PidRun.Ok (t : PidRun) : Prop where
  low : minPid ≤ t.pids.unusedPids
  nodup : (t.pids.unavailablePids.map PidClist.pid ++ t.pids.recycledPids).Nodup
  range : ∀ x, x ∈ t.pids.unavailablePids.map PidClist.pid ++ t.pids.recycledPids ↔
    minPid ≤ x ∧ x < t.pids.unusedPids
  handed : ∀ x, .handedOut x ∈ t.log ↔ minPid ≤ x ∧ x < t.pids.unusedPids
  claimed : ∀ e ∈ t.pids.unavailablePids, e.status = statusSince e.pid (since e.pid t.log) ∧ e.status ≠ pidFree
  recycled : ∀ x ∈ t.pids.recycledPids, statusSince x (since x t.log) = pidFree

theorem PidRun.Ok.start : PidRun.Ok .start where
  low := Nat.le_refl _
  nodup := List.nodup_nil
  range x := by simp [PidRun.start, Pids.start]
  handed x := by simp [PidRun.start, Pids.start]
  claimed e he := absurd he List.not_mem_nil
  recycled x hx := absurd hx List.not_mem_nil

variable {t t' : PidRun}

theorem PidRun.Ok.unavailable_nodup (h : t.Ok) : (t.pids.unavailablePids.map PidClist.pid).Nodup :=
  (List.nodup_append.mp h.nodup).1

theorem PidRun.Ok.mem_unavailable (h : t.Ok) :
    x ∈ t.pids.unavailablePids.map PidClist.pid ↔
      .handedOut x ∈ t.log ∧ statusSince x (since x t.log) ≠ pidFree := by
  rw [h.handed, ← h.range, List.mem_append]
  constructor
  · intro hx
    refine ⟨Or.inl hx, ?_⟩
    obtain ⟨e, he, rfl⟩ := List.mem_map.mp hx
    rw [← (h.claimed e he).1]
    exact (h.claimed e he).2
  · rintro ⟨hx | hx, hs⟩
    · exact hx
    · exact absurd (h.recycled x hx) hs

theorem PidRun.Ok.mem_recycled (h : t.Ok) :
    x ∈ t.pids.recycledPids ↔ .handedOut x ∈ t.log ∧ statusSince x (since x t.log) = pidFree := by
  constructor
  · intro hx
    exact ⟨(h.handed x).mpr ((h.range x).mp (List.mem_append_right _ hx)), h.recycled x hx⟩
  · rintro ⟨hx, hs⟩
    rcases List.mem_append.mp ((h.range x).mpr ((h.handed x).mp hx)) with hm | hm
    · exact absurd hs (h.mem_unavailable.mp hm).2
    · exact hm

/-! ## Handing out -/

theorem newPid_eq (hn : newPid mem s = .ok (x, s')) :
    s'.unavailablePids = ⟨x, pidNew⟩ :: s.unavailablePids ∧
      ((s.recycledPids = [] ∧ s'.recycledPids = [] ∧ x = s.unusedPids ∧ s'.unusedPids = s.unusedPids + 1) ∨
        (s.recycledPids = x :: s'.recycledPids ∧ s'.unusedPids = s.unusedPids)) := by
  unfold newPid at hn
  cases hr : s.recycledPids with
  | nil =>
    simp only [hr] at hn
    split at hn
    · cases hn
    split at hn
    · cases hn
    simp only [Except.ok.injEq, Prod.mk.injEq] at hn
    obtain ⟨rfl, rfl⟩ := hn
    exact ⟨rfl, Or.inl ⟨rfl, rfl, rfl, rfl⟩⟩
  | cons first rest =>
    simp only [hr] at hn
    split at hn
    · cases hn
    simp only [Except.ok.injEq, Prod.mk.injEq] at hn
    obtain ⟨rfl, rfl⟩ := hn
    exact ⟨rfl, Or.inr ⟨rfl, rfl⟩⟩

theorem statusSince_handedOut (h : y ≠ x) (log : List PidEvent) :
    statusSince y (since y (.handedOut x :: log)) = statusSince y (since y log) := by
  have hne : PidEvent.handedOut x ≠ .handedOut y := by
    intro he
    exact h (PidEvent.handedOut.inj he).symm
  rw [since_cons hne, statusSince]

theorem PidRun.Ok.fresh (h : t.Ok) (hn : newPid mem t.pids = .ok (x, s')) :
    x ∉ t.pids.unavailablePids.map PidClist.pid := by
  intro hx
  rcases (newPid_eq hn).2 with ⟨-, -, rfl, -⟩ | ⟨hr, -⟩
  · exact absurd ((h.range _).mp (List.mem_append_left _ hx)).2 (Nat.lt_irrefl _)
  · have hd := (List.nodup_append.mp h.nodup).2.2
    rw [hr] at hd
    exact hd x hx x (List.mem_cons_self ..) rfl

theorem PidRun.Ok.newPid (h : t.Ok) (hn : newPid mem t.pids = .ok (x, s')) :
    PidRun.Ok ⟨s', .handedOut x :: t.log⟩ := by
  have hfresh := h.fresh hn
  have hclaimed : ∀ e ∈ t.pids.unavailablePids,
      e.status = statusSince e.pid (since e.pid (.handedOut x :: t.log)) ∧ e.status ≠ pidFree := by
    intro e he
    have hne : e.pid ≠ x := fun h' => hfresh (h' ▸ List.mem_map_of_mem he)
    rw [statusSince_handedOut hne]
    exact h.claimed e he
  obtain ⟨hu, ⟨hr, hr', rfl, hn'⟩ | ⟨hr, hn'⟩⟩ := newPid_eq hn
  · -- a pid never used before
    have hrange := h.range
    have hnodup := h.nodup
    simp only [hr, List.append_nil] at hrange hnodup
    refine ⟨?_, ?_, fun y => ?_, fun y => ?_, fun e he => ?_, fun y hy => ?_⟩
    · simp only [hn']
      exact Nat.le_succ_of_le h.low
    · simp only [hu, hr', List.map_cons, List.append_nil, List.nodup_cons]
      exact ⟨hfresh, hnodup⟩
    · simp only [hu, hr', hn', List.map_cons, List.append_nil, List.mem_cons, hrange]
      have := h.low
      omega
    · simp only [hn', List.mem_cons, PidEvent.handedOut.injEq, h.handed]
      have := h.low
      omega
    · rw [hu] at he
      rcases List.mem_cons.mp he with rfl | he
      · simp only [since_handedOut, statusSince]
        exact ⟨trivial, by decide⟩
      · exact hclaimed e he
    · rw [hr'] at hy
      exact absurd hy List.not_mem_nil
  · -- the first recycled pid
    have hperm : (s'.unavailablePids.map PidClist.pid ++ s'.recycledPids).Perm
        (t.pids.unavailablePids.map PidClist.pid ++ t.pids.recycledPids) := by
      rw [hu, hr, List.map_cons, List.cons_append]
      exact List.perm_middle.symm
    refine ⟨?_, hperm.nodup_iff.mpr h.nodup, fun y => ?_, fun y => ?_, fun e he => ?_, fun y hy => ?_⟩
    · simp only [hn']
      exact h.low
    · simp only [hperm.mem_iff, h.range, hn']
    · have hx := (h.range x).mp (List.mem_append_right _ (hr ▸ List.mem_cons_self ..))
      simp only [hn', List.mem_cons, PidEvent.handedOut.injEq, h.handed]
      constructor
      · rintro (rfl | hy)
        · exact hx
        · exact hy
      · exact Or.inr
    · rw [hu] at he
      rcases List.mem_cons.mp he with rfl | he
      · simp only [since_handedOut, statusSince]
        exact ⟨trivial, by decide⟩
      · exact hclaimed e he
    · have hd := (List.nodup_append.mp h.nodup).2.1
      rw [hr, List.nodup_cons] at hd
      have hne : y ≠ x := fun h' => hd.1 (h' ▸ hy)
      simp only [statusSince_handedOut hne]
      exact h.recycled y (hr ▸ List.mem_cons_of_mem _ hy)

/-! ## The status calls -/

theorem PidCall.run_eq (c : PidCall) : c.run x mem s = pidChangeStatus x c.mask mem s := by
  cases c <;> rfl

theorem statusSince_called (c : PidCall) (log : List PidEvent) :
    statusSince x (since x (.called c x :: log)) = statusSince x (since x log) &&& c.mask := by
  rw [since_cons (by simp), statusSince, if_pos rfl]

theorem statusSince_called_of_ne (h : y ≠ x) (c : PidCall) (log : List PidEvent) :
    statusSince y (since y (.called c x :: log)) = statusSince y (since y log) := by
  rw [since_cons (by simp), statusSince, if_neg (fun h' => h h'.symm)]

theorem PidRun.Ok.call (h : t.Ok) (hx : pidClaimed x t.pids = true) {c : PidCall} (hc : c.run x mem t.pids = .ok s') :
    PidRun.Ok ⟨s', .called c x :: t.log⟩ := by
  have hnodup := h.unavailable_nodup
  rw [PidCall.run_eq] at hc
  obtain ⟨⟨l₁, e, l₂, hl, rfl, hcase⟩, hused⟩ := pidChangeStatus_changed hnodup hx hc
  have hstatus := (h.claimed e (hl ▸ List.mem_append_right _ (List.mem_cons_self ..))).1
  -- the entries before and behind it are of other pids
  rw [hl, List.map_append, List.map_cons, List.perm_middle.nodup_iff, List.nodup_cons, ← List.map_append] at hnodup
  have hother : ∀ e' ∈ l₁ ++ l₂,
      e'.status = statusSince e'.pid (since e'.pid (.called c e.pid :: t.log)) ∧ e'.status ≠ pidFree := by
    intro e' he'
    have hne : e'.pid ≠ e.pid := fun h' => hnodup.1 (h' ▸ List.mem_map_of_mem he')
    rw [statusSince_called_of_ne hne]
    refine h.claimed e' (hl ▸ ?_)
    simp only [List.mem_append, List.mem_cons] at he' ⊢
    tauto
  have hrecycled : ∀ y ∈ t.pids.recycledPids, statusSince y (since y (.called c e.pid :: t.log)) = pidFree := by
    intro y hy
    have hne : y ≠ e.pid := by
      rintro rfl
      exact (List.nodup_append.mp h.nodup).2.2 _ (pidClaimed_iff.mp hx) _ hy rfl
    rw [statusSince_called_of_ne hne]
    exact h.recycled y hy
  have hhanded : ∀ y, PidEvent.handedOut y ∈ PidEvent.called c e.pid :: t.log ↔ minPid ≤ y ∧ y < s'.unusedPids := by
    intro y
    rw [hused, ← h.handed]
    simp
  rcases hcase with ⟨hz, hl', hr'⟩ | ⟨hz, hl', hr'⟩
  · have hperm : (s'.unavailablePids.map PidClist.pid ++ s'.recycledPids).Perm
        (t.pids.unavailablePids.map PidClist.pid ++ t.pids.recycledPids) := by
      rw [hl, hl', hr']
      simp only [List.map_append, List.map_cons, List.append_assoc, List.cons_append]
      refine List.Perm.append_left _ ?_
      exact List.perm_middle
    refine ⟨hused ▸ h.low, hperm.nodup_iff.mpr h.nodup, fun y => ?_, hhanded, fun e' he' => ?_, fun y hy => ?_⟩
    · simp only [hperm.mem_iff, h.range, hused]
    · simp only [hl'] at he'
      exact hother e' he'
    · simp only [hr'] at hy
      rcases List.mem_cons.mp hy with rfl | hy
      · simp only [statusSince_called, ← hstatus, hz]
      · exact hrecycled y hy
  · have hmap : s'.unavailablePids.map PidClist.pid = t.pids.unavailablePids.map PidClist.pid := by
      rw [hl, hl']
      simp
    refine ⟨hused ▸ h.low, ?_, fun y => ?_, hhanded, fun e' he' => ?_, fun y hy => ?_⟩
    · simp only [hmap, hr']
      exact h.nodup
    · simp only [hmap, hr', hused, h.range]
    · simp only [hl'] at he'
      rcases List.mem_append.mp he' with he' | he'
      · exact hother e' (List.mem_append_left _ he')
      · rcases List.mem_cons.mp he' with rfl | he'
        · simp only [statusSince_called, ← hstatus]
          exact ⟨trivial, hz⟩
        · exact hother e' (List.mem_append_right _ he')
    · simp only [hr'] at hy
      exact hrecycled y hy

theorem PidRun.Ok.step {a : PidOp} (h : t.Ok) (ha : a.callable t) (hs : pidStep t a = .ok t') : t'.Ok := by
  cases a with
  | newPid mem =>
    obtain ⟨⟨x, s'⟩, hn, he⟩ := bind_eq_ok.mp hs
    obtain rfl := Except.ok.inj he
    exact h.newPid hn
  | call c x mem =>
    obtain ⟨s', hc, he⟩ := bind_eq_ok.mp hs
    obtain rfl := Except.ok.inj he
    exact h.call ha hc

/-- In every run of calls that return: the lists hold each pid below
`unused_pids` once, a new pid was not claimed, and a pid is claimed from then
on up to the first point where both sides are done with it. -/
theorem pids_recycled_when_done (h : Reach pidStep (fun t a => a.callable t) PidRun.start t) :
    (t.pids.unavailablePids.map PidClist.pid ++ t.pids.recycledPids).Nodup ∧
      (∀ x, x ∈ t.pids.unavailablePids.map PidClist.pid ++ t.pids.recycledPids ↔
        minPid ≤ x ∧ x < t.pids.unusedPids) ∧
      (∀ x, pidClaimed x t.pids = true ↔ .handedOut x ∈ t.log ∧ ¬ BothDone x (since x t.log)) ∧
      (∀ x, x ∈ t.pids.recycledPids ↔ .handedOut x ∈ t.log ∧ BothDone x (since x t.log)) ∧
      ∀ mem x s', newPid mem t.pids = .ok (x, s') → pidClaimed x t.pids = false ∧ pidClaimed x s' = true := by
  have hok : t.Ok := h.invariant (I := PidRun.Ok) PidRun.Ok.start (fun _ _ _ hi ha hs => hi.step ha hs)
  refine ⟨hok.nodup, hok.range, fun x => ?_, fun x => ?_, fun mem x s' hn => ⟨?_, ?_⟩⟩
  · rw [pidClaimed_iff, hok.mem_unavailable, Ne, statusSince_free_iff]
  · rw [hok.mem_recycled, statusSince_free_iff]
  · rw [← Bool.not_eq_true, pidClaimed_iff]
    exact hok.fresh hn
  · rw [pidClaimed_iff, (newPid_eq hn).1]
    exact List.mem_cons_self ..

def pidsRan (l : List PidOp) : PidRun :=
  match l.foldlM pidStep PidRun.start with
  | .ok t => t
  | .error _ => PidRun.start

theorem pids_recycled_when_done_once :
    101 ∈ (pidsRan [.newPid true, .newPid true, .call .processExit 101 true,
      .call .parentDone 101 true]).pids.recycledPids := by
  have h₁ : Reach pidStep (fun t a => a.callable t) PidRun.start (pidsRan [.newPid true]) :=
    Reach.refl.tail (a := .newPid true) trivial rfl
  have h₂ : Reach pidStep (fun t a => a.callable t) PidRun.start (pidsRan [.newPid true, .newPid true]) :=
    h₁.tail (a := .newPid true) trivial rfl
  have h₃ : Reach pidStep (fun t a => a.callable t) PidRun.start
      (pidsRan [.newPid true, .newPid true, .call .processExit 101 true]) :=
    h₂.tail (a := .call .processExit 101 true) rfl rfl
  have h₄ : Reach pidStep (fun t a => a.callable t) PidRun.start
      (pidsRan [.newPid true, .newPid true, .call .processExit 101 true, .call .parentDone 101 true]) :=
    h₃.tail (a := .call .parentDone 101 true) rfl rfl
  refine ((pids_recycled_when_done h₄).2.2.2.1 101).mpr ⟨by decide, Or.inl ⟨by decide, by decide⟩⟩

end Os161
