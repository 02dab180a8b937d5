import Os161.ThreadSound

/-!
# Room for all threads

`thread_fork` makes room for all threads, so that a switch needs no memory.
Of the run queue's cells one always stays empty, `exorcise` gives the storage
of `zombies` back, and new threads leave the zombies to the next switch; so a
switch can still need memory.
-/

namespace Os161

open Outcome

variable {s s' : ThreadSys} {p : Places} {α : Type}

def ThreadAct.WithoutMemory : ThreadAct → Prop
  | .yield mem | .sleep _ mem | .exitEnd mem => mem = false
  | .wakeup _ mem => ∀ r, mem r = false
  | .hardclock mem memYield => (∀ r, mem r = false) ∧ memYield = false
  | _ => False

/-- No assertion of `mi_switch` or `thread_wakeup` on ENOMEM can fail. -/
def ThreadSys.NeedsNoMemory (s : ThreadSys) : Prop :=
  ∀ a : ThreadAct, a.WithoutMemory → a.Callable s → threadStep s a ≠ .error .outOfMemory

def ThreadSys.AllSleepOn (s : ThreadSys) (addr : Nat) : Prop :=
  ∀ t ∈ s.sleepers.toList, s.sleepsOn addr t = true

/-- The next call can leave all threads on the run queue. The current thread
yields and nobody sleeps, or `hardclock` first wakes the others, who all sleep
on `lbolt`; or there is no current thread, and one wake-up wakes all sleepers. -/
def ThreadSys.AllReady (s : ThreadSys) : Prop :=
  (s.curthread ≠ none ∧ (s.sleepers.toList = [] ∨ (s.lboltCounter + 1 ≥ hz ∧ s.AllSleepOn lbolt))) ∨
    (s.curthread = none ∧ s.sleepers.toList ≠ [] ∧ ∃ addr, s.AllSleepOn addr)

/-! ## Without memory nothing grows -/

theorem expectRoom_eq_ok {β : Type} {r : Except ContainerFault β} {b : β} (h : expectRoom r = .ok b) : r = .ok b := by
  cases r with
  | ok a => exact congrArg Except.ok (Except.ok.inj h)
  | error e => cases e <;> cases h

theorem qAddtail_size {q q' : Queue α} {x : α} (h : qAddtail q x false = .ok q') : q'.size = q.size := by
  unfold qAddtail at h
  split at h
  · cases h
  · split at h
    · cases h
    · rw [← Except.ok.inj h, qStore_size]

theorem arrayAdd_max {a b : PtrArray α} {x : α} (h : arrayAdd a x false = .ok b) : b.max = a.max := by
  unfold arrayAdd at h
  obtain ⟨c, hset, h⟩ := bind_eq_ok.mp h
  have hmax : c.max = a.max := by
    unfold arraySetsize at hset
    split at hset
    · cases hset
    · split at hset
      · obtain ⟨d, hpre, -⟩ := bind_eq_ok.mp hset
        unfold arrayPreallocate at hpre
        rw [if_neg ‹_›] at hpre
        cases hpre
      · rw [if_neg (fun hz => Nat.succ_ne_zero _ hz.1)] at hset
        rw [← Except.ok.inj hset]
  split at h
  · cases h
  · rw [← Except.ok.inj h, ← hmax]

theorem yield_size (h : threadYield s false = .ok s') : s'.runqueue.size = s.runqueue.size := by
  unfold threadYield miSwitch at h
  split at h
  · rw [← Except.ok.inj h]
  · obtain ⟨q, hq, h⟩ := bind_eq_ok.mp h
    rw [← Except.ok.inj h]
    exact qAddtail_size (expectRoom_eq_ok hq)

theorem exitEnd_max (h : exitEnd s false = .ok s') : s'.zombies.max = s.zombies.max ∨ s.curthread = none := by
  unfold exitEnd miSwitch ThreadSys.modifyCur at h
  cases hc : s.curthread with
  | none => exact Or.inr rfl
  | some t =>
    left
    rw [hc] at h
    dsimp only at h
    split at h
    · cases h
    · rw [show (s.modify t _).curthread = some t from hc] at h
      obtain ⟨b, hb, h⟩ := bind_eq_ok.mp h
      rw [← Except.ok.inj h]
      exact arrayAdd_max (expectRoom_eq_ok hb)

theorem wakeupLoop_size {addr rounds i : Nat} {mem : Nat → Bool} (hmem : ∀ r, mem r = false)
    (h : threadWakeupLoop addr mem rounds i s = .ok s') : s'.runqueue.size = s.runqueue.size := by
  induction rounds generalizing s i with
  | zero => rw [← Except.ok.inj h]
  | succ rounds ih =>
    unfold threadWakeupLoop at h
    split at h
    · obtain ⟨t, -, h⟩ := bind_eq_ok.mp h
      split at h
      · cases h
      · split at h
        · obtain ⟨b, -, h⟩ := bind_eq_ok.mp h
          obtain ⟨q, hq, h⟩ := bind_eq_ok.mp h
          rw [ih h]
          rw [hmem] at hq
          exact qAddtail_size (expectRoom_eq_ok hq)
        · exact ih h
    · rw [← Except.ok.inj h]

theorem wakeup_size {addr : Nat} {mem : Nat → Bool} (hmem : ∀ r, mem r = false) (h : threadWakeup s addr mem = .ok s') :
    s'.runqueue.size = s.runqueue.size := wakeupLoop_size hmem h

/-! ## When a call needs memory -/

section
variable (h : s.Ok p) (hroom : s.numthreads ≤ s.runqueue.size)
include h hroom

theorem ThreadSys.Ok.yield_full (he : p.cur ≠ none ∧ p.run.length + 1 = s.runqueue.size) :
    s.numthreads = s.runqueue.size ∧ s.curthread ≠ none ∧ s.sleepers.toList = [] := by
  obtain ⟨t, hc⟩ := Option.ne_none_iff_exists'.mp he.1
  have hcount := h.count
  rw [hc, Option.toList_some, List.length_singleton] at hcount
  rw [h.sleepers.toList, h.cur]
  refine ⟨by omega, he.1, List.length_eq_zero_iff.mp (by omega)⟩

theorem ThreadSys.Ok.wakeup_full {addr n : Nat}
    (hn : s.runqueue.size ≤ n + p.run.length + (p.sleepers.filter (s.sleepsOn addr)).length)
    (hle : n ≤ p.cur.toList.length) :
    s.numthreads = s.runqueue.size ∧ n = p.cur.toList.length ∧ s.AllSleepOn addr := by
  have hcount := h.count
  have hfilter := List.length_filter_le (s.sleepsOn addr) p.sleepers
  refine ⟨by omega, by omega, ?_⟩
  rw [ThreadSys.AllSleepOn, h.sleepers.toList]
  exact List.length_filter_eq_length_iff.mp (by omega)

theorem ThreadSys.Ok.wakeup_none {addr : Nat}
    (he : s.runqueue.size ≤ p.run.length + (p.sleepers.filter (s.sleepsOn addr)).length) :
    s.numthreads = s.runqueue.size ∧ s.curthread = none ∧ s.sleepers.toList ≠ [] ∧ s.AllSleepOn addr := by
  obtain ⟨hnum, hcur, hone⟩ := h.wakeup_full hroom (n := 0) (by rw [Nat.zero_add]; exact he) (Nat.zero_le _)
  have hc : p.cur = none := by
    cases hc : p.cur with
    | none => rfl
    | some t =>
      rw [hc] at hcur
      cases hcur
  refine ⟨hnum, h.cur.trans hc, fun hnil => ?_, hone⟩
  rw [h.sleepers.toList] at hnil
  rw [hnil, List.filter_nil, List.length_nil] at he
  have hlt := h.queue.room
  omega

end

theorem ThreadSys.Ok.needs (h : s.Ok p) (hroom : s.numthreads ≤ s.runqueue.size) (hmax : s.numthreads ≤ s.sleepers.max)
    {a : ThreadAct} (hmem : a.WithoutMemory) (ha : a.Callable s) (he : threadStep s a = .error .outOfMemory) :
    (s.stageIs .cwd = true ∧ s.zombies.num = s.zombies.max) ∨ (s.numthreads = s.runqueue.size ∧ s.AllReady) := by
  cases a with
  | fork _ _ | scheduler | exitSpace | exitCwd | setVmspace _ | setCwd _ => exact hmem.elim
  | yield mem =>
    obtain ⟨-, -, hfull⟩ := (h.yield mem).error_of he
    obtain ⟨hnum, hcur, hnil⟩ := h.yield_full hroom hfull
    exact Or.inr ⟨hnum, Or.inl ⟨hcur, Or.inl hnil⟩⟩
  | sleep addr mem =>
    -- the current thread is not among the sleepers
    obtain ⟨t, hc⟩ := Option.ne_none_iff_exists'.mp ha
    have hcur : p.cur = some t := h.cur.symm.trans hc
    obtain ⟨-, -, hfull⟩ := (h.sleep hcur addr mem).error_of he
    have hcount := h.count
    have hnum := h.sleepers.num
    rw [hcur, Option.toList_some, List.length_singleton] at hcount
    omega
  | wakeup addr mem =>
    obtain ⟨-, hfull⟩ := (h.wakeup addr mem).error_of he
    obtain ⟨hnum, hcur, hne, hall⟩ := h.wakeup_none hroom hfull
    exact Or.inr ⟨hnum, Or.inr ⟨hcur, hne, addr, hall⟩⟩
  | exitEnd mem =>
    obtain ⟨-, -, hfull⟩ := (h.exitEnd ha mem).error_of he
    exact Or.inl ⟨ha, hfull⟩
  | hardclock mem memYield =>
    right
    change Os161.hardclock s mem memYield = _ at he
    unfold Os161.hardclock at he
    split at he
    · have h₀ : ({ s with lboltCounter := 0 } : ThreadSys).Ok p := { h with }
      cases hw : threadWakeup { s with lboltCounter := 0 } lbolt mem with
      | error e =>
        obtain ⟨-, hfull⟩ := (h₀.wakeup lbolt mem).error_of hw
        obtain ⟨hnum, hcur, hne, hall⟩ := h.wakeup_none hroom hfull
        exact ⟨hnum, Or.inr ⟨hcur, hne, lbolt, hall⟩⟩
      | ok s₁ =>
        rw [hw] at he
        have h₁ := ((h₀.wakeup lbolt mem).ok_of hw).1
        obtain ⟨-, -, hcur, hfull⟩ := (h₁.yield memYield).error_of he
        rw [wakeup_size hmem.1 hw] at hfull
        obtain ⟨t, hc⟩ := Option.ne_none_iff_exists'.mp hcur
        have hlen : p.cur.toList.length = 1 := by
          rw [show p.cur = some t from hc]
          rfl
        rw [show (p.wakeup _).run = p.run ++ _ from rfl, List.length_append] at hfull
        change p.run.length + (p.sleepers.filter (s.sleepsOn lbolt)).length + 1 = s.runqueue.size at hfull
        have hle : s.runqueue.size ≤ 1 + p.run.length + (p.sleepers.filter (s.sleepsOn lbolt)).length := by omega
        obtain ⟨hnum, -, hall⟩ := h.wakeup_full hroom hle (Nat.le_of_eq hlen.symm)
        refine ⟨hnum, Or.inl ⟨?_, Or.inr ⟨‹_›, hall⟩⟩⟩
        rw [h.cur]
        exact hcur
    · have h₀ : ({ s with lboltCounter := s.lboltCounter + 1 } : ThreadSys).Ok p := { h with }
      obtain ⟨-, -, hfull⟩ := (h₀.yield memYield).error_of he
      obtain ⟨hnum, hcur, hnil⟩ := h.yield_full hroom hfull
      exact ⟨hnum, Or.inl ⟨hcur, Or.inl hnil⟩⟩

/-! ## Calls that need memory -/

section
variable (h : s.Ok p)
include h

theorem ThreadSys.Ok.exitEnd_needs (hstage : s.stageIs .cwd = true) (hfull : s.zombies.max ≤ s.zombies.num) :
    Os161.exitEnd s false = .error .outOfMemory := by
  cases he : Os161.exitEnd s false with
  | error e => rw [((h.exitEnd hstage false).error_of he).1]
  | ok s' =>
    obtain ⟨t, x, hc, -⟩ := stageIs_iff.mp hstage
    have h' := ((h.exitEnd hstage false).ok_of he).1
    have hnum := h'.zombies.num
    have hle := h'.zombies.le
    have hmax := (exitEnd_max he).resolve_right (by rw [hc]; nofun)
    rw [show p.exit.zombies = p.zombies ++ p.cur.toList from rfl, ← h.cur, hc, Option.toList_some, List.length_append,
      List.length_singleton, ← h.zombies.num] at hnum
    omega

theorem ThreadSys.Ok.not_all_run {p' : Places} (hfull : s.numthreads = s.runqueue.size) (h' : s'.Ok p')
    (hsize : s'.runqueue.size = s.runqueue.size) :
    p'.run.length ≠ p.cur.toList.length + p.run.length + p.sleepers.length := by
  intro hlen
  have hroom := h'.queue.room
  have hcount := h.count
  omega

theorem ThreadSys.Ok.wakeup_all {addr : Nat} (hall : s.AllSleepOn addr) :
    (p.wakeup (s.sleepsOn addr)).run = p.run ++ p.sleepers := by
  rw [ThreadSys.AllSleepOn, h.sleepers.toList] at hall
  rw [Places.wakeup, List.filter_eq_self.mpr hall]

theorem ThreadSys.Ok.yield_needs (hfull : s.numthreads = s.runqueue.size) (hnil : s.sleepers.toList = []) :
    threadYield s false = .error .outOfMemory := by
  cases he : threadYield s false with
  | error e => rw [((h.yield false).error_of he).1]
  | ok s' =>
    rw [h.sleepers.toList] at hnil
    have h' := ((h.yield false).ok_of he).1
    refine absurd ?_ (h.not_all_run hfull h' (yield_size he))
    rw [hnil, Places.yield, List.length_append, List.length_nil]
    omega

theorem ThreadSys.Ok.wakeup_needs {addr : Nat} (hfull : s.numthreads = s.runqueue.size) (hc : s.curthread = none)
    (hall : s.AllSleepOn addr) : threadWakeup s addr (fun _ => false) = .error .outOfMemory := by
  cases he : threadWakeup s addr (fun _ => false) with
  | error e => rw [((h.wakeup addr _).error_of he).1]
  | ok s' =>
    have h' := ((h.wakeup addr _).ok_of he).1
    refine absurd ?_ (h.not_all_run hfull h' (wakeup_size (fun _ => rfl) he))
    rw [h.wakeup_all hall, ← h.cur, hc, List.length_append, Option.toList_none, List.length_nil, Nat.zero_add]

theorem ThreadSys.Ok.hardclock_needs (hfull : s.numthreads = s.runqueue.size) (hlbolt : s.lboltCounter + 1 ≥ hz)
    (hall : s.AllSleepOn lbolt) : Os161.hardclock s (fun _ => false) false = .error .outOfMemory := by
  have h₀ : ({ s with lboltCounter := 0 } : ThreadSys).Ok p := { h with }
  have hrun := h₀.wakeup_all hall
  unfold Os161.hardclock
  rw [if_pos hlbolt]
  cases hw : threadWakeup { s with lboltCounter := 0 } lbolt (fun _ => false) with
  | error e =>
    rw [((h₀.wakeup lbolt _).error_of hw).1]
    rfl
  | ok s₁ =>
    have h₁ := ((h₀.wakeup lbolt _).ok_of hw).1
    rw [ok_bind]
    cases he : threadYield s₁ false with
    | error e => rw [((h₁.yield false).error_of he).1]
    | ok s₂ =>
      have h₂ := ((h₁.yield false).ok_of he).1
      have hsize := (yield_size he).trans (wakeup_size (fun _ => rfl) hw)
      refine absurd ?_ (h.not_all_run hfull h₂ hsize)
      rw [show ((p.wakeup _).yield).run = (p.wakeup _).run ++ p.cur.toList from rfl, hrun, List.length_append,
        List.length_append]
      omega

theorem ThreadSys.Ok.needsNoMemory_iff (hroom : s.numthreads ≤ s.runqueue.size) (hmax : s.numthreads ≤ s.sleepers.max) :
    s.NeedsNoMemory ↔
      (s.stageIs .cwd = true → s.zombies.num < s.zombies.max) ∧ (s.numthreads = s.runqueue.size → ¬ s.AllReady) := by
  constructor
  · intro hno
    constructor
    · intro hstage
      by_contra hfull
      exact hno (.exitEnd false) rfl hstage (h.exitEnd_needs hstage (Nat.not_lt.mp hfull))
    · intro hfull hready
      rcases hready with ⟨-, hnil | ⟨hlbolt, hall⟩⟩ | ⟨hc, -, addr, hall⟩
      · exact hno (.yield false) rfl trivial (h.yield_needs hfull hnil)
      · exact hno (.hardclock (fun _ => false) false) ⟨fun _ => rfl, rfl⟩ trivial (h.hardclock_needs hfull hlbolt hall)
      · exact hno (.wakeup addr fun _ => false) (fun _ => rfl) trivial (h.wakeup_needs hfull hc hall)
  · intro hcond a hmem ha he
    rcases h.needs hroom hmax hmem ha he with ⟨hstage, hfull⟩ | ⟨hfull, hready⟩
    · exact Nat.ne_of_lt (hcond.1 hstage) hfull
    · exact hcond.2 hfull hready

end

/-! ## Runs -/

theorem ThreadSys.Ok.keepRoom {s₀ : ThreadSys} (h₀ : s₀.Ok p) (hroom : s₀.numthreads ≤ s₀.runqueue.size)
    (hmax : s₀.numthreads ≤ s₀.sleepers.max) (hr : Reach threadStep (fun s a => a.Callable s) s₀ s) :
    ∃ p, s.Ok p ∧ s.numthreads ≤ s.runqueue.size ∧ s.numthreads ≤ s.sleepers.max := by
  refine Reach.invariant (I := fun s => ∃ p, s.Ok p ∧ s.numthreads ≤ s.runqueue.size ∧ s.numthreads ≤ s.sleepers.max)
    ⟨p, h₀, hroom, hmax⟩ (fun s a s' hI ha hs => ?_) hr
  obtain ⟨p, hp, hroom, hmax⟩ := hI
  obtain ⟨p', hp'⟩ := (hp.step ha).ok_of hs
  have hqueue := hp'.keeps.queue
  have hsleepers := hp'.keeps.sleepers
  rcases hp'.count with hcount | hnew
  · exact ⟨p', hp'.ok, by omega, by omega⟩
  · exact ⟨p', hp'.ok, hnew⟩

/-- In every state after a `thread_fork` that made a thread, the run queue and
`sleepers` are as large as the number of threads. The next switch or wake-up
cannot fail for want of memory exactly when `zombies` has room for a thread at
its end, and when not all threads can be on a run queue of just their number. -/
theorem switches_without_memory (me newguy : Nat) (mem : ForkMem) (s₀ s₁ s : ThreadSys)
    (h₀ : Reach threadStep (fun s a => a.Callable s) (threadBootstrap me) s₀)
    (hcall : (ThreadAct.fork newguy mem).Callable s₀) (hfork : threadFork s₀ newguy mem = .ok s₁)
    (hmade : s₁.numthreads = s₀.numthreads + 1) (h : Reach threadStep (fun s a => a.Callable s) s₁ s) :
    s.numthreads ≤ s.runqueue.size ∧ s.numthreads ≤ s.sleepers.max ∧
      (s.NeedsNoMemory ↔
        (s.stageIs .cwd = true → s.zombies.num < s.zombies.max) ∧ (s.numthreads = s.runqueue.size → ¬ s.AllReady)) := by
  obtain ⟨p₀, hp₀⟩ := ThreadSys.Ok.reach h₀
  obtain ⟨p₁, hp₁⟩ := (hp₀.step hcall).ok_of (show threadStep s₀ (.fork newguy mem) = .ok s₁ from hfork)
  have hnew := hp₁.count.resolve_left (by omega)
  obtain ⟨p, hp, hroom, hmax⟩ := hp₁.ok.keepRoom hnew.1 hnew.2 h
  exact ⟨hroom, hmax, hp.needsNoMemory_iff hroom hmax⟩

def forkMem : ForkMem := ⟨true, true, true, true, true⟩

theorem switches_without_memory_two : ∃ s₁ s, threadFork (threadBootstrap 0) 1 forkMem = .ok s₁ ∧
    Reach threadStep (fun s a => a.Callable s) s₁ s ∧ s.sleepers.toList = [0] ∧ s.NeedsNoMemory := by
  let s₁ : ThreadSys := match threadFork (threadBootstrap 0) 1 forkMem with
    | .ok s => s
    | .error _ => threadBootstrap 0
  have hfork : threadFork (threadBootstrap 0) 1 forkMem = .ok s₁ := rfl
  obtain ⟨s, hs, hsleep, hnum, hstage⟩ : ∃ s, Reach threadStep (fun s a => a.Callable s) s₁ s ∧
      s.sleepers.toList = [0] ∧ s.numthreads ≠ s.runqueue.size ∧ s.stageIs .cwd ≠ true :=
    Reach.of_leads
      (Q := fun s : ThreadSys => s.sleepers.toList = [0] ∧ s.numthreads ≠ s.runqueue.size ∧ s.stageIs .cwd ≠ true)
      (l := [.sleep 7 false]) (by decide +kernel)
  refine ⟨s₁, s, hfork, hs, hsleep, ?_⟩
  have hiff := (switches_without_memory 0 1 forkMem _ s₁ s .refl (by decide) hfork rfl hs).2.2
  exact hiff.mpr ⟨fun h => absurd h hstage, fun h => absurd h hnum⟩

theorem needs_memory_of_leads {Q : ThreadSys → Prop} [DecidablePred Q] {a : ThreadAct} {l : List ThreadAct}
    (h : leads threadStep (fun s a => a.Callable s)
      (fun s => Q s ∧ a.Callable s ∧ Post (threadStep s a) (fun _ => False) (· = .outOfMemory)) l
      (threadBootstrap 0) = true) :
    ∃ s, Reach threadStep (fun s a => a.Callable s) (threadBootstrap 0) s ∧ Q s ∧ a.Callable s ∧
      threadStep s a = .error .outOfMemory := by
  obtain ⟨s, hs, hq, ha, hpost⟩ := Reach.of_leads h
  exact ⟨s, hs, hq, ha, hpost.eq_error⟩

theorem switch_needs_memory :
    (∃ s, Reach threadStep (fun s a => a.Callable s) (threadBootstrap 0) s ∧ s.numthreads = 32 ∧
      (ThreadAct.yield false).Callable s ∧ threadStep s (.yield false) = .error .outOfMemory) ∧
    (∃ s, Reach threadStep (fun s a => a.Callable s) (threadBootstrap 0) s ∧ s.zombies.max = 0 ∧
      (ThreadAct.exitEnd false).Callable s ∧ threadStep s (.exitEnd false) = .error .outOfMemory) ∧
    (∃ s, Reach threadStep (fun s a => a.Callable s) (threadBootstrap 0) s ∧ s.zombies.toList = [1, 2, 3, 4, 5, 6] ∧
      (ThreadAct.exitEnd false).Callable s ∧ threadStep s (.exitEnd false) = .error .outOfMemory) := by
  refine ⟨?_, ?_, ?_⟩
  · exact needs_memory_of_leads (l := (List.range 31).map fun k => .fork (k + 1) forkMem) (by decide +kernel)
  · exact needs_memory_of_leads
      (l := (List.range 14).map (fun k => .fork (k + 1) forkMem) ++
        (List.replicate 15 [.yield true, .scheduler]).flatten ++ [.exitSpace, .exitCwd])
      (by decide +kernel)
  · exact needs_memory_of_leads
      (l := [.fork 1 forkMem, .sleep 7 true] ++
        ((List.range 6).map fun k =>
          [.scheduler, .fork (k + 2) forkMem, .exitSpace, .exitCwd, .exitEnd true]).flatten ++
        [.scheduler, .fork 8 forkMem, .exitSpace, .exitCwd])
      (by decide +kernel)

end Os161
