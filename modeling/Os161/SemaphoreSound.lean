import Os161.Queue32Sound
import Os161.Semaphore
import Os161.ThreadSound

/-!
# Semaphores neither lose nor invent units, nor wake-ups

The count is what was there at first, with the calls of `V` added and the
finished calls of `P` taken away, and no thread sleeps on the semaphore
unless it is 0.
-/

namespace Os161

open Outcome

variable {s s' : ThreadSys} {p : Places} {a : ThreadAct} {addr t u : Nat}

/-! ## Who sleeps where -/

def ThreadSys.Waits (s : ThreadSys) (addr t : Nat) : Prop := t ∈ s.sleepers.toList ∧ s.sleepsOn addr t = true

theorem sleepsOn_congr (h : s'.threads u = s.threads u) : s'.sleepsOn addr u = s.sleepsOn addr u := by
  simp only [ThreadSys.sleepsOn, h]

theorem sleepsOn_modify {f : Thread → Thread} (hf : ∀ x, (f x).sleepaddr = x.sleepaddr) :
    (s.modify t f).sleepsOn addr u = s.sleepsOn addr u := by
  simp only [ThreadSys.sleepsOn, modify_threads]
  by_cases hu : u = t
  · subst hu
    cases s.threads u <;> simp [hf]
  · rw [if_neg hu]

theorem sleepsOn_modifyCur {f : Thread → Thread} (hf : ∀ x, (f x).sleepaddr = x.sleepaddr) :
    (s.modifyCur f).sleepsOn addr u = s.sleepsOn addr u := by
  unfold ThreadSys.modifyCur
  cases s.curthread with
  | none => rfl
  | some t => exact sleepsOn_modify hf

theorem sleepsOn_miSwitch {st : ThreadState} {mem : Bool} (h : miSwitch s st mem = .ok s') :
    s'.sleepsOn addr u = s.sleepsOn addr u := by
  unfold miSwitch at h
  cases hc : s.curthread with
  | none =>
    rw [hc] at h
    cases h
    rfl
  | some t =>
    rw [hc] at h
    have hmod : (s.modify t fun x => { x with inSwitch := some st }).sleepsOn addr u = s.sleepsOn addr u :=
      sleepsOn_modify fun _ => rfl
    cases st with
    | run => cases h
    | ready =>
      obtain ⟨q, -, h⟩ := bind_eq_ok.mp h
      cases h
      exact hmod
    | sleep =>
      obtain ⟨q, -, h⟩ := bind_eq_ok.mp h
      cases h
      exact hmod
    | zomb =>
      obtain ⟨q, -, h⟩ := bind_eq_ok.mp h
      cases h
      exact hmod

theorem waits_of_modifyCur {f : Thread → Thread} (hw : (s.modifyCur f).Waits addr t)
    (hf : ∀ x, (f x).sleepaddr = x.sleepaddr) : s.Waits addr t := by
  have hsl : (s.modifyCur f).sleepers = s.sleepers := by
    unfold ThreadSys.modifyCur
    cases s.curthread <;> rfl
  unfold ThreadSys.Waits at hw ⊢
  rwa [hsl, sleepsOn_modifyCur hf] at hw

section
variable (h : s.Ok p)
include h

theorem ThreadSys.Ok.waits_iff : s.Waits addr t ↔ t ∈ p.sleepers ∧ s.sleepsOn addr t = true := by
  unfold ThreadSys.Waits
  rw [h.sleepers.toList]

theorem ThreadSys.Ok.waits_of {p' : Places} (h' : s'.Ok p') (hsl : ∀ u ∈ p'.sleepers, u ∈ p.sleepers)
    (hon : ∀ u ∈ p'.sleepers, s'.sleepsOn addr u = s.sleepsOn addr u) (hw : s'.Waits addr t) : s.Waits addr t := by
  rw [h'.waits_iff] at hw
  rw [h.waits_iff, ← hon t hw.1]
  exact ⟨hsl t hw.1, hw.2⟩

theorem ThreadSys.Ok.yield_waits {mem : Bool} (hs : threadYield s mem = .ok s') (hw : s'.Waits addr t) :
    s.Waits addr t :=
  h.waits_of ((h.yield mem).ok_of hs).1 (fun _ hu => hu) (fun _ _ => sleepsOn_miSwitch hs) hw

theorem ThreadSys.Ok.sleep_waits {addr' : Nat} {mem : Bool} (hs : threadSleep s addr' mem = .ok s') (hne : addr' ≠ addr)
    (hw : s'.Waits addr t) : s.Waits addr t := by
  unfold threadSleep at hs
  cases hc : s.curthread with
  | none => rw [hc] at hs; cases hs
  | some cur =>
    have hsl : threadSleep s addr' mem = .ok s' := by unfold threadSleep; exact hs
    obtain ⟨h', -, x, hx, haddr⟩ := (h.sleep (h.cur.symm.trans hc) addr' mem).ok_of hsl
    rw [hc] at hs
    have hon : ∀ u, u ≠ cur → s'.sleepsOn addr u = s.sleepsOn addr u := fun u hu => by
      rw [sleepsOn_miSwitch hs]
      exact sleepsOn_congr (by rw [modify_threads, if_neg hu])
    rw [h'.waits_iff] at hw
    have htc : t ≠ cur := by
      rintro rfl
      have hon := hw.2
      rw [sleepsOn_eq addr hx, haddr] at hon
      simp [hne] at hon
    have hmem : t ∈ p.sleepers := by
      have hp := hw.1
      rw [Places.sleep, h.cur.symm.trans hc] at hp
      simpa [htc] using hp
    rw [h.waits_iff, ← hon t htc]
    exact ⟨hmem, hw.2⟩

theorem ThreadSys.Ok.wakeup_woken {mem : Nat → Bool} {addr' : Nat} (hs : threadWakeup s addr' mem = .ok s') :
    s'.Ok (p.wakeup (s.sleepsOn addr')) ∧ ∀ addr u, s'.sleepsOn addr u = s.sleepsOn addr u := by
  have ht : ∀ t ∈ p.sleepers, s.threads t ≠ none := fun t hm => (h.mem t).mp (Places.mem_all.mpr (by simp [hm]))
  have hw := ((threadWakeup_post h.queue h.sleepers ht addr' mem).ok_of hs).1
  refine ⟨((h.wakeup addr' mem).ok_of hs).1, fun addr u => sleepsOn_congr ?_⟩
  rw [hw.rest]

theorem ThreadSys.Ok.wakeup_waits {addr' : Nat} {mem : Nat → Bool} (hs : threadWakeup s addr' mem = .ok s')
    (hw : s'.Waits addr t) : s.Waits addr t :=
  h.waits_of (h.wakeup_woken hs).1 (fun _ hu => List.mem_of_mem_filter hu) (fun u _ => (h.wakeup_woken hs).2 addr u) hw

theorem ThreadSys.Ok.wakeup_nobody {mem : Nat → Bool} (hs : threadWakeup s addr mem = .ok s') : ¬ s'.Waits addr t := by
  obtain ⟨h', hon⟩ := h.wakeup_woken hs
  rw [h'.waits_iff, hon]
  rintro ⟨hm, hs⟩
  simp [Places.wakeup, hs] at hm

theorem ThreadSys.Ok.hardclock_waits {mem : Nat → Bool} {memYield : Bool}
    (hs : Os161.hardclock s mem memYield = .ok s') (hw : s'.Waits addr t) : s.Waits addr t := by
  unfold Os161.hardclock at hs
  split at hs
  · obtain ⟨s₁, h₁, hs⟩ := bind_eq_ok.mp hs
    have h₀ : ({ s with lboltCounter := 0 } : ThreadSys).Ok p := { h with }
    exact h₀.wakeup_waits h₁ ((h₀.wakeup_woken h₁).1.yield_waits hs hw)
  · have h₀ : ({ s with lboltCounter := s.lboltCounter + 1 } : ThreadSys).Ok p := { h with }
    exact h₀.yield_waits hs hw

theorem ThreadSys.Ok.step_waits (ha : a.Callable s) (hs : threadStep s a = .ok s') (hne : a.sleepsAt addr = false)
    (hw : s'.Waits addr t) : s.Waits addr t := by
  cases a with
  | fork newguy mem =>
    obtain ⟨c, x, hc, -⟩ := stageIs_iff.mp ha.1
    obtain ⟨p', hf⟩ := (h.fork (by rw [← h.cur, hc]; simp) ha.2 mem).ok_of hs
    have hsl : p'.sleepers = p.sleepers := by
      rcases hf.places with ⟨rfl, -⟩ | ⟨rfl, -⟩ <;> rfl
    refine h.waits_of hf.ok (fun u hu => hsl ▸ hu) (fun u hu => sleepsOn_congr (hf.others u ?_)) hw
    rintro rfl
    exact (h.mem u).mp (Places.mem_all.mpr (by rw [← hsl]; simp [hu])) ha.2
  | yield mem => exact h.yield_waits hs hw
  | sleep addr' mem => exact h.sleep_waits hs (of_decide_eq_false hne) hw
  | wakeup addr' mem => exact h.wakeup_waits hs hw
  | hardclock mem memYield => exact h.hardclock_waits hs hw
  | scheduler =>
    obtain ⟨p', hsch⟩ := (h.scheduler (h.cur.symm.trans ha)).ok_of hs
    exact h.waits_of hsch.ok (fun u hu => hsch.sleepers ▸ hu)
      (fun u hu => sleepsOn_congr (hsch.others u (Or.inl hu))) hw
  | exitSpace =>
    cases hs
    exact waits_of_modifyCur hw fun _ => rfl
  | exitCwd =>
    cases hs
    exact waits_of_modifyCur hw fun _ => rfl
  | exitEnd mem =>
    have h' := ((h.exitEnd ha mem).ok_of hs).1
    simp only [threadStep, Os161.exitEnd] at hs
    split at hs
    · cases hs
    · refine h.waits_of h' (fun _ hu => hu) (fun u _ => ?_) hw
      rw [sleepsOn_miSwitch hs]
      exact sleepsOn_modifyCur fun _ => rfl
  | setVmspace vmspace =>
    cases hs
    exact waits_of_modifyCur hw fun _ => rfl
  | setCwd cwd =>
    cases hs
    exact waits_of_modifyCur hw fun _ => rfl

end

/-! ## Units -/

variable {q q' : SemSys} {b : SemAct}

structure SemSys.Ok (q : SemSys) : Prop where
  threads : ∃ p, q.sys.Ok p
  count : q.count = q.initialCount + q.vs - q.ps
  range : 0 ≤ q.count ∧ q.count < 2 ^ 31
  asleep : ∀ t, q.sys.Waits q.sem t → q.count = 0

theorem onThreads_eq_ok {β : Type} {r : Except ThreadFault β} {x : β} : onThreads r = .ok x ↔ r = .ok x := by
  cases r <;> simp [onThreads]

theorem semCreate_ok {sem c : Nat} (h : s.Ok p) (hfresh : ∀ t, ¬ s.Waits sem t) (hc : c < 2 ^ 31) :
    (semCreate s sem c).Ok where
  threads := ⟨p, h⟩
  count := by simp [semCreate]
  range := by
    simp only [semCreate]
    omega
  asleep t ht := absurd ht (hfresh t)

theorem SemSys.Ok.semP {mem : Bool} (h : q.Ok) (hs : semP q mem = .ok q') : q'.Ok := by
  obtain ⟨p, hp⟩ := h.threads
  have hr := h.range
  unfold Os161.semP at hs
  cases hc : q.sys.curthread with
  | none => rw [hc] at hs; cases hs
  | some t =>
    rw [hc] at hs
    simp only [pLoop] at hs
    by_cases h0 : q.count = 0
    · rw [if_pos h0] at hs
      obtain ⟨sys, hsl, hs⟩ := bind_eq_ok.mp hs
      have hp' := ((hp.sleep (hp.cur.symm.trans hc) q.sem mem).ok_of (onThreads_eq_ok.mp hsl)).1
      cases hs
      exact ⟨⟨_, hp'⟩, h.count, hr, fun _ _ => h0⟩
    · have hpos : 0 < q.count := by omega
      rw [if_neg h0, if_pos hpos] at hs
      cases hs
      have hint : Q32.int (q.count - 1) = q.count - 1 := Q32.int_small (by omega) (by omega)
      refine ⟨⟨p, hp⟩, ?_, ?_, fun t ht => absurd (h.asleep t ht) h0⟩
      · have := h.count
        simp only [hint]
        push_cast
        omega
      · simp only [hint]
        omega

theorem SemSys.Ok.int_succ (h : q.Ok) (hb : q.initialCount + q.vs + 1 < 2 ^ 31 + q.ps) :
    Q32.int (q.count + 1) = q.count + 1 := by
  have := h.count
  have := h.range
  exact Q32.int_small (by omega) (by omega)

theorem SemSys.Ok.semV {mem : Nat → Bool} (h : q.Ok) (hb : q.initialCount + q.vs + 1 < 2 ^ 31 + q.ps)
    (hs : semV q mem = .ok q') : q'.Ok := by
  obtain ⟨p, hp⟩ := h.threads
  have hr := h.range
  have hcount := h.count
  have hint := h.int_succ hb
  simp only [Os161.semV, hint] at hs
  rw [if_pos (by omega)] at hs
  obtain ⟨sys, hw, hs⟩ := bind_eq_ok.mp hs
  have hw := onThreads_eq_ok.mp hw
  cases hs
  refine ⟨⟨_, ((hp.wakeup q.sem mem).ok_of hw).1⟩, ?_, ?_, fun t ht => absurd ht (hp.wakeup_nobody hw)⟩
  · push_cast
    omega
  · simp only
    omega

theorem SemSys.Ok.step (h : q.Ok) (hb : b.Callable q) (hs : semStep q b = .ok q') : q'.Ok := by
  cases b with
  | thread a =>
    obtain ⟨-, ha, hne⟩ := hb
    obtain ⟨p, hp⟩ := h.threads
    obtain ⟨sys, hst, hs⟩ := bind_eq_ok.mp hs
    have hst := onThreads_eq_ok.mp hst
    obtain ⟨p', hp'⟩ := (hp.step ha).ok_of hst
    cases hs
    exact ⟨⟨p', hp'.ok⟩, h.count, h.range, fun t ht => h.asleep t (hp.step_waits ha hst hne ht)⟩
  | p mem => exact h.semP hs
  | again mem => exact h.semP hs
  | v mem => exact h.semV hb.2 hs

theorem SemSys.Ok.no_assertion (h : q.Ok) (hb : b.Callable q) : semStep q b ≠ .error .assertion := by
  have hr := h.range
  have hlift : ∀ {β : Type} (r : Except ThreadFault β), onThreads r ≠ .error .assertion := fun r => by
    cases r <;> simp [onThreads]
  have hp : ∀ mem, Os161.semP q mem ≠ .error .assertion := fun mem he => by
    unfold Os161.semP at he
    cases hc : q.sys.curthread with
    | none => rw [hc] at he; cases he
    | some t =>
      rw [hc] at he
      simp only [pLoop] at he
      split at he
      · rcases bind_eq_error.mp he with he | ⟨_, -, he⟩
        · exact hlift _ he
        · cases he
      · rw [if_pos (by omega)] at he
        cases he
  intro he
  cases b with
  | thread a =>
    rcases bind_eq_error.mp he with he | ⟨_, -, he⟩
    · exact hlift _ he
    · cases he
  | p mem => exact hp mem he
  | again mem => exact hp mem he
  | v mem =>
    simp only [semStep, Os161.semV, h.int_succ hb.2] at he
    rw [if_pos (by omega)] at he
    rcases bind_eq_error.mp he with he | ⟨_, -, he⟩
    · exact hlift _ he
    · cases he

theorem SemSys.Ok.reach {q₀ : SemSys} (h : q₀.Ok) (hr : Reach semStep (fun q b => b.Callable q) q₀ q) : q.Ok :=
  hr.invariant h fun _ _ _ h hb hs => h.step hb hs

/-! ## Who is inside -/

theorem semStep_tally (hs : semStep q b = .ok q') : q'.sem = q.sem ∧ q'.initialCount = q.initialCount ∧
    ((q'.inside = q.inside ∧ q'.ps = q.ps ∧ q'.vs = q.vs) ∨
      (∃ t, q'.inside = t :: q.inside ∧ q'.ps = q.ps + 1 ∧ q'.vs = q.vs) ∨
      (q'.ps = q.ps ∧ q'.vs = q.vs + 1 ∧ (b.Matched q → q'.inside.length + 1 = q.inside.length))) := by
  have hp : ∀ mem, Os161.semP q mem = .ok q' → q'.sem = q.sem ∧ q'.initialCount = q.initialCount ∧
      ((q'.inside = q.inside ∧ q'.ps = q.ps ∧ q'.vs = q.vs) ∨
        ∃ t, q'.inside = t :: q.inside ∧ q'.ps = q.ps + 1 ∧ q'.vs = q.vs) := fun mem hs => by
    unfold Os161.semP at hs
    cases hc : q.sys.curthread with
    | none => rw [hc] at hs; cases hs
    | some t =>
      rw [hc] at hs
      simp only [pLoop] at hs
      split at hs
      · obtain ⟨sys, -, hs⟩ := bind_eq_ok.mp hs
        cases hs
        exact ⟨rfl, rfl, Or.inl ⟨rfl, rfl, rfl⟩⟩
      · split at hs
        · cases hs
          exact ⟨rfl, rfl, Or.inr ⟨t, rfl, rfl, rfl⟩⟩
        · cases hs
  cases b with
  | thread a =>
    obtain ⟨sys, -, hs⟩ := bind_eq_ok.mp hs
    cases hs
    exact ⟨rfl, rfl, Or.inl ⟨rfl, rfl, rfl⟩⟩
  | p mem =>
    obtain ⟨h1, h2, h3⟩ := hp mem hs
    exact ⟨h1, h2, h3.imp_right Or.inl⟩
  | again mem =>
    obtain ⟨h1, h2, h3⟩ := hp mem hs
    exact ⟨h1, h2, h3.imp_right Or.inl⟩
  | v mem =>
    simp only [semStep, Os161.semV] at hs
    split at hs
    · obtain ⟨sys, -, hs⟩ := bind_eq_ok.mp hs
      cases hs
      refine ⟨rfl, rfl, Or.inr (Or.inr ⟨rfl, rfl, ?_⟩)⟩
      rintro ⟨t, hc, ht⟩
      simp only [hc]
      rw [List.length_erase_of_mem ht]
      have := List.length_pos_of_mem ht
      omega
    · cases hs

theorem reach_constants {q₀ : SemSys} {ok : SemSys → SemAct → Prop} (hr : Reach semStep ok q₀ q) :
    q.sem = q₀.sem ∧ q.initialCount = q₀.initialCount :=
  hr.invariant (I := fun q => q.sem = q₀.sem ∧ q.initialCount = q₀.initialCount) ⟨rfl, rfl⟩ fun _ _ _ h _ hs =>
    ⟨(semStep_tally hs).1.trans h.1, (semStep_tally hs).2.1.trans h.2⟩

theorem reach_inside {sem c : Nat} (hr : Reach semStep (fun q b => b.Callable q ∧ b.Matched q) (semCreate s sem c) q) :
    q.inside.length + q.vs = q.ps := by
  refine hr.invariant (I := fun q => q.inside.length + q.vs = q.ps) rfl fun q b q' h hb hs => ?_
  obtain ⟨-, -, ⟨h1, h2, h3⟩ | ⟨t, h1, h2, h3⟩ | ⟨h1, h2, h3⟩⟩ := semStep_tally hs
  · rw [h1, h2, h3, h]
  · rw [h1, h2, h3, List.length_cons]
    omega
  · have := h3 hb.2
    omega

/-- Over every run: the count is what the calls make it and never negative,
the assertions hold, nobody sleeps while there is a unit, and with matched
calls no more threads are inside than there were units at first. -/
theorem semaphore_units {me sem c : Nat} (hsys : Reach threadStep (fun s a => a.Callable s) (threadBootstrap me) s)
    (hfresh : ∀ t, ¬ s.Waits sem t) (hc : c < 2 ^ 31)
    (hr : Reach semStep (fun q b => b.Callable q) (semCreate s sem c) q) :
    (q.count = c + q.vs - q.ps ∧ 0 ≤ q.count) ∧ (∀ b, b.Callable q → semStep q b ≠ .error .assertion) ∧
      (∀ t, q.sys.Waits sem t → q.count = 0) ∧
      (Reach semStep (fun q b => b.Callable q ∧ b.Matched q) (semCreate s sem c) q → q.inside.length ≤ c) := by
  obtain ⟨p, hp⟩ := ThreadSys.Ok.reach hsys
  have hq := (semCreate_ok hp hfresh hc).reach hr
  obtain ⟨hsem, hinit⟩ := reach_constants hr
  have hcount : q.count = c + q.vs - q.ps := by
    rw [hq.count, hinit]
    rfl
  refine ⟨⟨hcount, hq.range.1⟩, fun b hb => hq.no_assertion hb, fun t ht => hq.asleep t (hsem ▸ ht), fun hm => ?_⟩
  have hin := reach_inside hm
  have := hq.range.1
  omega

instance SemAct.decidableCallable (q : SemSys) (b : SemAct) : Decidable (b.Callable q) :=
  match b with
  | .thread _ => inferInstanceAs (Decidable (_ ∧ _ ∧ _))
  | .p _ => inferInstanceAs (Decidable (_ ∧ q.sys.curthread ≠ none))
  | .again _ => inferInstanceAs (Decidable (_ = true))
  | .v _ => inferInstanceAs (Decidable (_ ∧ _ < _))

def handover : List SemAct :=
  [.thread (.fork 1 ⟨true, true, true, true, true⟩), .p true, .thread .scheduler, .v fun _ => true,
    .thread (.yield true), .thread .scheduler, .again true]

theorem semaphore_units_handover : ∃ q, Reach semStep (fun q b => b.Callable q) (semCreate (threadBootstrap 0) 8 0) q ∧
    q.inside = [0] ∧ q.count = (0 : Nat) + q.vs - q.ps ∧ ∀ t, q.sys.Waits 8 t → q.count = 0 := by
  obtain ⟨q, hr, hin⟩ : ∃ q, Reach semStep (fun q b => b.Callable q) (semCreate (threadBootstrap 0) 8 0) q ∧
      q.inside = [0] := Reach.of_leads (l := handover) (by decide +kernel)
  have hfresh : ∀ t, ¬ (threadBootstrap 0).Waits 8 t := fun t ht => by cases ht.1
  obtain ⟨⟨hc, -⟩, -, hs, -⟩ := semaphore_units .refl hfresh (by decide) hr
  exact ⟨q, hr, hin, hc, hs⟩

end Os161
