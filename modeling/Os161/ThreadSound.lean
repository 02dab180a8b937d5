import Os161.QueueSound
import Os161.Thread
import Mathlib.Data.List.Nodup

/-!
# Every thread is in one place

`Places` is what the thread system is about: the current thread, the threads
that can run, those that sleep and those that have exited. Each call moves
threads from one place to another, and the queue and the arrays hold the
threads of their places.
-/

namespace Os161

open Outcome

structure Places where
  cur : Option Nat
  run : List Nat
  sleepers : List Nat
  zombies : List Nat

def Places.all (p : Places) : List Nat := p.cur.toList ++ p.run ++ p.sleepers ++ p.zombies

def Places.yield (p : Places) : Places := { p with cur := none, run := p.run ++ p.cur.toList }

def Places.sleep (p : Places) : Places := { p with cur := none, sleepers := p.sleepers ++ p.cur.toList }

def Places.exit (p : Places) : Places := { p with cur := none, zombies := p.zombies ++ p.cur.toList }

def Places.wakeup (p : Places) (on : Nat → Bool) : Places :=
  { p with run := p.run ++ p.sleepers.filter on, sleepers := p.sleepers.filter (!on ·) }

def Places.fork (p : Places) (t : Nat) : Places := { p with run := p.run ++ [t] }

def Places.exorcise (p : Places) : Places := { p with zombies := [] }

structure Thread.Fits (x : Thread) (t : Nat) (p : Places) : Prop where
  asleep : t ∈ p.sleepers → x.sleepaddr ≠ none ∧ x.inSwitch = some .sleep
  dead : t ∈ p.zombies → x.vmspace = none ∧ x.cwd = none
  alive : t ∈ p.run → x.inSwitch ≠ some .zomb
  exiting : x.stage ≠ .running → x.vmspace = none

structure ThreadSys.Ok (s : ThreadSys) (p : Places) : Prop where
  cur : s.curthread = p.cur
  queue : s.runqueue.Holds p.run
  sleepers : s.sleepers.Holds p.sleepers
  zombies : s.zombies.Holds p.zombies
  nodup : p.all.Nodup
  mem : ∀ t, t ∈ p.all ↔ s.threads t ≠ none
  count : s.numthreads = p.cur.toList.length + p.run.length + p.sleepers.length
  fits : ∀ t x, s.threads t = some x → x.Fits t p

variable {s s' : ThreadSys} {p p' : Places} {t u : Nat} {x : Thread} {mem : Bool}

theorem Places.mem_all : t ∈ p.all ↔ p.cur = some t ∨ t ∈ p.run ∨ t ∈ p.sleepers ∨ t ∈ p.zombies := by
  simp [Places.all]

theorem Places.perm_yield (p : Places) : p.yield.all.Perm p.all := by
  rw [List.perm_iff_count]
  intro t
  simp only [Places.all, Places.yield, List.count_append, Option.toList_none, List.count_nil]
  omega

theorem Places.perm_sleep (p : Places) : p.sleep.all.Perm p.all := by
  rw [List.perm_iff_count]
  intro t
  simp only [Places.all, Places.sleep, List.count_append, Option.toList_none, List.count_nil]
  omega

theorem Places.perm_exit (p : Places) : p.exit.all.Perm p.all := by
  rw [List.perm_iff_count]
  intro t
  simp only [Places.all, Places.exit, List.count_append, Option.toList_none, List.count_nil]
  omega

theorem Places.not_mem_of_cur (h : p.all.Nodup) (hc : p.cur = some t) :
    t ∉ p.run ∧ t ∉ p.sleepers ∧ t ∉ p.zombies := by
  unfold Places.all at h
  rw [hc, Option.toList_some, List.append_assoc, List.append_assoc, List.singleton_append, List.nodup_cons] at h
  simpa only [List.mem_append, not_or] using h.1

theorem Places.not_zombie (h : p.all.Nodup) (hu : u ∈ p.run ∨ u ∈ p.sleepers) : u ∉ p.zombies := by
  intro hz
  have happ := (List.nodup_append.mp h).2.2
  refine happ u ?_ u hz rfl
  simp only [List.mem_append]
  tauto

/-! ## The current thread -/

theorem modify_threads (s : ThreadSys) (t : Nat) (f : Thread → Thread) (u : Nat) :
    (s.modify t f).threads u = if u = t then (s.threads t).map f else s.threads u := by
  unfold ThreadSys.modify
  by_cases hu : u = t
  · subst hu
    simp
  · simp [hu]

theorem modify_eq_none (s : ThreadSys) (t : Nat) (f : Thread → Thread) (u : Nat) :
    (s.modify t f).threads u = none ↔ s.threads u = none := by
  rw [modify_threads]
  by_cases hu : u = t
  · rw [if_pos hu, Option.map_eq_none_iff, hu]
  · rw [if_neg hu]

theorem ThreadSys.Ok.modifyCur (h : s.Ok p) (hc : p.cur = some t) {f : Thread → Thread}
    (hf : ∀ x, s.threads t = some x → (f x).stage ≠ .running → (f x).vmspace = none) : (s.modify t f).Ok p := by
  refine { h with mem := fun u => ?_, fits := fun u y hy => ?_ }
  · rw [h.mem, ne_eq, ne_eq, modify_eq_none]
  · obtain ⟨hrun, hsleep, hzomb⟩ := Places.not_mem_of_cur h.nodup hc
    rw [modify_threads] at hy
    by_cases hu : u = t
    · subst hu
      rw [if_pos rfl] at hy
      obtain ⟨x, hx, rfl⟩ := Option.map_eq_some_iff.mp hy
      exact ⟨fun hm => absurd hm hsleep, fun hm => absurd hm hzomb, fun hm => absurd hm hrun, hf x hx⟩
    · rw [if_neg hu] at hy
      exact h.fits u y hy

theorem ThreadSys.Ok.stashed (h : s.Ok p) (hc : p.cur = some t) {st : ThreadState} (hperm : p'.all.Perm p.all)
    (hthreads : s'.threads = (s.modify t fun x => { x with inSwitch := some st }).threads)
    (hcur : s'.curthread = p'.cur)
    (hq : s'.runqueue.Holds p'.run) (hs : s'.sleepers.Holds p'.sleepers) (hz : s'.zombies.Holds p'.zombies)
    (hcount : s'.numthreads = p'.cur.toList.length + p'.run.length + p'.sleepers.length)
    (hself : ∀ x, s.threads t = some x → ({ x with inSwitch := some st } : Thread).Fits t p')
    (hother : ∀ u, u ≠ t → (u ∈ p'.run → u ∈ p.run) ∧ (u ∈ p'.sleepers → u ∈ p.sleepers) ∧
      (u ∈ p'.zombies → u ∈ p.zombies)) :
    s'.Ok p' := by
  refine ⟨hcur, hq, hs, hz, hperm.nodup_iff.mpr h.nodup, fun u => ?_, hcount, fun u y hy => ?_⟩
  · rw [hperm.mem_iff, h.mem, hthreads, ne_eq, ne_eq, modify_eq_none]
  · rw [hthreads, modify_threads] at hy
    by_cases hu : u = t
    · subst hu
      rw [if_pos rfl] at hy
      obtain ⟨x, hx, rfl⟩ := Option.map_eq_some_iff.mp hy
      exact hself x hx
    · rw [if_neg hu] at hy
      obtain ⟨hr, hsl, hzo⟩ := hother u hu
      have hfits := h.fits u y hy
      exact ⟨fun hm => hfits.asleep (hsl hm), fun hm => hfits.dead (hzo hm),
        fun hm => hfits.alive (hr hm), hfits.exiting⟩

/-! ## Switching away -/

structure KeepsRoom (s s' : ThreadSys) : Prop where
  queue : s.runqueue.size ≤ s'.runqueue.size
  sleepers : s.sleepers.max ≤ s'.sleepers.max

theorem KeepsRoom.refl (s : ThreadSys) : KeepsRoom s s := ⟨Nat.le_refl _, Nat.le_refl _⟩

theorem KeepsRoom.trans {s'' : ThreadSys} (h : KeepsRoom s s') (h' : KeepsRoom s' s'') : KeepsRoom s s'' :=
  ⟨Nat.le_trans h.queue h'.queue, Nat.le_trans h.sleepers h'.sleepers⟩

section
variable (h : s.Ok p)
include h

theorem ThreadSys.Ok.yield (mem : Bool) :
    Post (threadYield s mem) (fun s' => s'.Ok p.yield ∧ KeepsRoom s s')
      fun e => e = .outOfMemory ∧ mem = false ∧ p.cur ≠ none ∧ p.run.length + 1 = s.runqueue.size := by
  unfold threadYield miSwitch
  rw [h.cur]
  cases hc : p.cur with
  | none =>
    have hyield : p.yield = p := by
      unfold Places.yield
      rw [hc, Option.toList_none, List.append_nil, ← hc]
    rw [hyield]
    exact ⟨h, .refl s⟩
  | some t =>
    have hp : p.yield = { p with cur := none, run := p.run ++ [t] } := by rw [Places.yield, hc, Option.toList_some]
    obtain ⟨hrun, hsleep, hzomb⟩ := Places.not_mem_of_cur h.nodup hc
    obtain ⟨q', heq, hq, hsize⟩ | ⟨heq, hmem, hlen⟩ := h.queue.addtail_cases t mem
    · have heq' : expectRoom (qAddtail s.runqueue t mem) = .ok q' := by rw [heq]; rfl
      show Post (do let runqueue ← expectRoom (qAddtail s.runqueue t mem); .ok _) _ _
      rw [heq', ok_bind]
      refine ⟨h.stashed hc p.perm_yield rfl rfl (by rw [hp]; exact hq) h.sleepers h.zombies ?_ ?_ ?_,
        ⟨hsize, Nat.le_refl _⟩⟩
      · have hcount := h.count
        rw [hc] at hcount
        rw [hp]
        simp only [ThreadSys.modify, Option.toList_some, Option.toList_none, List.length_append, List.length_nil,
          List.length_singleton] at hcount ⊢
        omega
      · intro x hx
        rw [hp]
        exact ⟨fun hm => absurd hm hsleep, fun hm => absurd hm hzomb, fun _ => by simp, (h.fits t x hx).exiting⟩
      · intro u hu
        rw [hp]
        refine ⟨fun hm => ?_, id, id⟩
        simpa [hu] using hm
    · show Post (do let runqueue ← expectRoom (qAddtail s.runqueue t mem); .ok _) _ _
      rw [heq]
      exact ⟨rfl, hmem, by simp, hlen⟩

theorem ThreadSys.Ok.sleep (hc : p.cur = some t) (addr : Nat) (mem : Bool) :
    Post (threadSleep s addr mem)
      (fun s' => s'.Ok p.sleep ∧ KeepsRoom s s' ∧ ∃ x, s'.threads t = some x ∧ x.sleepaddr = some addr)
      fun e => e = .outOfMemory ∧ mem = false ∧ s.sleepers.num = s.sleepers.max := by
  let s₁ := s.modify t fun x => { x with sleepaddr := some addr }
  have h₁ : s₁.Ok p := h.modifyCur hc fun x hx => (h.fits t x hx).exiting
  have hp : p.sleep = { p with cur := none, sleepers := p.sleepers ++ [t] } := by
    rw [Places.sleep, hc, Option.toList_some]
  obtain ⟨hrun, hsleep, hzomb⟩ := Places.not_mem_of_cur h.nodup hc
  obtain ⟨y, hy⟩ : ∃ y, s.threads t = some y :=
    Option.ne_none_iff_exists'.mp ((h.mem t).mp (Places.mem_all.mpr (Or.inl hc)))
  have hsw : threadSleep s addr mem = (do
      let sleepers ← expectRoom (arrayAdd s.sleepers t mem)
      .ok { s₁.modify t (fun x => { x with inSwitch := some .sleep }) with
        curthread := none
        sleepers := sleepers }) := by
    unfold threadSleep miSwitch
    rw [h.cur, hc]
    dsimp only
    rw [show ∀ f, (s.modify t f).curthread = some t from fun _ => h.cur.trans hc]
    rfl
  rw [hsw]
  obtain ⟨b, heq, hb, hsize⟩ | ⟨heq, hmem, hlen⟩ := h.sleepers.add_cases t mem
  · rw [heq]
    refine ⟨h₁.stashed hc p.perm_sleep rfl rfl h.queue (by rw [hp]; exact hb) h.zombies ?_ ?_ ?_,
      ⟨Nat.le_refl _, hsize⟩, ?_⟩
    · have hcount := h.count
      rw [hc] at hcount
      rw [hp]
      simp only [s₁, ThreadSys.modify, Option.toList_some, Option.toList_none, List.length_append, List.length_nil,
        List.length_singleton] at hcount ⊢
      omega
    · intro x hx
      rw [hp]
      refine ⟨fun _ => ⟨?_, rfl⟩, fun hm => absurd hm hzomb, fun hm => absurd hm hrun, (h₁.fits t x hx).exiting⟩
      rw [modify_threads, if_pos rfl, hy, Option.map_some, Option.some.injEq] at hx
      rw [← hx]
      simp
    · intro u hu
      rw [hp]
      refine ⟨id, fun hm => ?_, id⟩
      simpa [hu] using hm
    · refine ⟨{ y with sleepaddr := some addr, inSwitch := some .sleep }, ?_, rfl⟩
      show (s₁.modify t _).threads t = _
      rw [modify_threads, if_pos rfl, modify_threads, if_pos rfl, hy]
      rfl
  · rw [heq]
    exact ⟨rfl, hmem, hlen⟩

end

theorem stageIs_iff {stage : ExitStage} :
    s.stageIs stage = true ↔ ∃ t x, s.curthread = some t ∧ s.threads t = some x ∧ x.stage = stage := by
  unfold ThreadSys.stageIs
  cases hc : s.curthread with
  | none => simp
  | some t =>
    cases hx : s.threads t with
    | none => simp [hx]
    | some x => simp [hx]

theorem ThreadSys.Ok.exitEnd (h : s.Ok p) (hstage : s.stageIs .cwd = true) (mem : Bool) :
    Post (Os161.exitEnd s mem) (fun s' => s'.Ok p.exit ∧ KeepsRoom s s')
      fun e => e = .outOfMemory ∧ mem = false ∧ s.zombies.num = s.zombies.max := by
  obtain ⟨t, y, hcur, hy, hst⟩ := stageIs_iff.mp hstage
  have hc : p.cur = some t := h.cur.symm.trans hcur
  let s₁ := s.modify t fun x => { x with cwd := none }
  have h₁ : s₁.Ok p := h.modifyCur hc fun x hx => (h.fits t x hx).exiting
  have hp : p.exit = { p with cur := none, zombies := p.zombies ++ [t] } := by rw [Places.exit, hc, Option.toList_some]
  obtain ⟨hrun, hsleep, hzomb⟩ := Places.not_mem_of_cur h.nodup hc
  have hcount := h.count
  rw [hc, Option.toList_some, List.length_singleton] at hcount
  have hsw : Os161.exitEnd s mem = (do
      let zombies ← expectRoom (arrayAdd s.zombies t mem)
      .ok { s₁.modify t (fun x => { x with inSwitch := some .zomb }) with
        curthread := none, zombies := zombies, numthreads := s.numthreads - 1 }) := by
    have hmod : s.modifyCur (fun x => { x with cwd := none }) = s₁ := by
      unfold ThreadSys.modifyCur
      rw [hcur]
    unfold Os161.exitEnd miSwitch
    rw [hmod]
    simp only
    rw [if_neg (show ¬ s₁.numthreads = 0 from by show ¬ s.numthreads = 0; omega)]
    rw [show s₁.curthread = some t from hcur]
    rfl
  rw [hsw]
  obtain ⟨b, heq, hb, -⟩ | ⟨heq, hmem, hlen⟩ := h.zombies.add_cases t mem
  · rw [heq]
    refine ⟨h₁.stashed hc p.perm_exit rfl rfl h.queue h.sleepers (by rw [hp]; exact hb) ?_ ?_ ?_,
      ⟨Nat.le_refl _, Nat.le_refl _⟩⟩
    · rw [hp]
      simp only [Option.toList_none, List.length_nil]
      omega
    · intro x hx
      rw [hp]
      have hfits := h₁.fits t x hx
      rw [modify_threads, if_pos rfl, hy, Option.map_some, Option.some.injEq] at hx
      refine ⟨fun hm => absurd hm hsleep, fun _ => ⟨hfits.exiting ?_, by rw [← hx]⟩,
        fun hm => absurd hm hrun, hfits.exiting⟩
      rw [← hx]
      show y.stage ≠ .running
      rw [hst]
      simp
    · intro u hu
      rw [hp]
      refine ⟨id, id, fun hm => ?_⟩
      simpa [hu] using hm
  · rw [heq]
    exact ⟨rfl, hmem, hlen⟩

/-! ## Waking up -/

def ThreadSys.sleepsOn (s : ThreadSys) (addr t : Nat) : Bool :=
  match s.threads t with
  | none => false
  | some x => x.sleepaddr = some addr

structure ThreadSys.Woken (s s' : ThreadSys) (run sleepers : List Nat) : Prop where
  queue : s'.runqueue.Holds run
  sleepers : s'.sleepers.Holds sleepers
  rest : s' = { s with runqueue := s'.runqueue, sleepers := s'.sleepers }

section

variable {r l l' : List Nat} {addr rounds : Nat}

theorem sleeper_at (hs : s.sleepers.Holds (l ++ t :: l')) :
    l.length < s.sleepers.num ∧ expectRoom (arrayGetguy s.sleepers l.length) = .ok t := by
  refine ⟨by simp [hs.num], ?_⟩
  rw [hs.getguy (k := l.length) (x := t) (by simp)]
  rfl

theorem sleepsOn_eq (addr : Nat) (hx : s.threads t = some x) :
    s.sleepsOn addr t = decide (x.sleepaddr = some addr) := by
  simp only [ThreadSys.sleepsOn, hx]

theorem threadWakeupLoop_post (hq : s.runqueue.Holds r) (hs : s.sleepers.Holds (l ++ l'))
    (ht : ∀ t ∈ l', s.threads t ≠ none) (hr : l'.length ≤ rounds) (addr : Nat) (mem : Nat → Bool) :
    Post (threadWakeupLoop addr mem rounds l.length s)
      (fun s' => s.Woken s' (r ++ l'.filter (s.sleepsOn addr)) (l ++ l'.filter (!s.sleepsOn addr ·)) ∧ KeepsRoom s s')
      fun e => e = .outOfMemory ∧ (∃ k, mem k = false) ∧
        s.runqueue.size ≤ r.length + (l'.filter (s.sleepsOn addr)).length := by
  induction rounds generalizing s r l l' with
  | zero =>
    obtain rfl := List.length_eq_zero_iff.mp (Nat.le_zero.mp hr)
    exact ⟨⟨by simpa using hq, by simpa using hs, rfl⟩, .refl s⟩
  | succ rounds ih =>
    unfold threadWakeupLoop
    cases l' with
    | nil =>
      rw [if_neg (by simp [hs.num])]
      exact ⟨⟨by simpa using hq, by simpa using hs, rfl⟩, .refl s⟩
    | cons t l' =>
      obtain ⟨hlt, hguy⟩ := sleeper_at hs
      obtain ⟨x, hx⟩ := Option.ne_none_iff_exists'.mp (ht t List.mem_cons_self)
      have ht' : ∀ u ∈ l', s.threads u ≠ none := fun u hu => ht u (List.mem_cons_of_mem t hu)
      have hon := sleepsOn_eq addr hx
      rw [if_pos hlt, hguy, ok_bind, hx]
      dsimp only
      by_cases hsleep : x.sleepaddr = some addr
      · -- `t` leaves the sleepers, so the next one stands at the same index
        rw [if_pos hsleep, List.filter_cons_of_pos (by simp [hon, hsleep]),
          List.filter_cons_of_neg (by simp [hon, hsleep])]
        obtain ⟨b, hrem, hb, hmax⟩ := hs.remove (i := l.length) (by simp)
        rw [List.eraseIdx_append_of_length_le (Nat.le_refl _), Nat.sub_self, List.eraseIdx_cons_zero] at hb
        rw [hrem]
        obtain ⟨q, heq, hq', hsize⟩ | ⟨heq, hmem, hlen⟩ := hq.addtail_cases t (mem rounds)
        · rw [heq]
          have hrec := ih (s := { s with sleepers := b, runqueue := q }) hq' hb ht' (by simpa using hr)
          refine hrec.mono (fun s' hs' => ⟨⟨?_, hs'.1.sleepers, hs'.1.rest⟩, ?_⟩) fun e he => ⟨he.1, he.2.1, ?_⟩
          · have hqueue : s'.runqueue.Holds (r ++ [t] ++ l'.filter (s.sleepsOn addr)) := hs'.1.queue
            rwa [List.append_assoc] at hqueue
          · exact KeepsRoom.trans ⟨hsize, Nat.le_of_eq hmax.symm⟩ hs'.2
          · have hle : q.size ≤ (r ++ [t]).length + (l'.filter (s.sleepsOn addr)).length := he.2.2
            simp only [List.length_append, List.length_cons, List.length_nil] at hle ⊢
            omega
        · rw [heq]
          refine ⟨rfl, ⟨rounds, hmem⟩, ?_⟩
          rw [List.length_cons]
          omega
      · rw [if_neg hsleep, List.filter_cons_of_neg (by simp [hon, hsleep]),
          List.filter_cons_of_pos (by simp [hon, hsleep])]
        have hrec := ih (l := l ++ [t]) hq (by simpa using hs) ht' (by simpa using hr)
        rw [List.length_append, List.length_singleton] at hrec
        simpa only [List.append_assoc, List.singleton_append] using hrec

theorem threadWakeup_post (hq : s.runqueue.Holds r) (hs : s.sleepers.Holds l) (ht : ∀ t ∈ l, s.threads t ≠ none)
    (addr : Nat) (mem : Nat → Bool) :
    Post (threadWakeup s addr mem)
      (fun s' => s.Woken s' (r ++ l.filter (s.sleepsOn addr)) (l.filter (!s.sleepsOn addr ·)) ∧ KeepsRoom s s')
      fun e => e = .outOfMemory ∧ (∃ k, mem k = false) ∧
        s.runqueue.size ≤ r.length + (l.filter (s.sleepsOn addr)).length :=
  threadWakeupLoop_post (l := []) hq hs ht (Nat.le_of_eq hs.num.symm) addr mem

theorem threadHassleepersLoop_eq (hs : s.sleepers.Holds (l ++ l')) (ht : ∀ t ∈ l', s.threads t ≠ none)
    (hr : l'.length ≤ rounds) :
    threadHassleepersLoop s addr rounds l.length = .ok (l'.any (s.sleepsOn addr)) := by
  induction rounds generalizing l l' with
  | zero =>
    obtain rfl := List.length_eq_zero_iff.mp (Nat.le_zero.mp hr)
    rfl
  | succ rounds ih =>
    unfold threadHassleepersLoop
    cases l' with
    | nil =>
      rw [if_neg (by simp [hs.num])]
      rfl
    | cons t l' =>
      obtain ⟨hlt, hguy⟩ := sleeper_at hs
      obtain ⟨x, hx⟩ := Option.ne_none_iff_exists'.mp (ht t List.mem_cons_self)
      rw [if_pos hlt, hguy, ok_bind, hx, List.any_cons, sleepsOn_eq addr hx]
      dsimp only
      by_cases hsleep : x.sleepaddr = some addr
      · rw [if_pos hsleep, decide_eq_true hsleep, Bool.true_or]
      · rw [if_neg hsleep, decide_eq_false hsleep, Bool.false_or]
        have hrec := ih (l := l ++ [t]) (by simpa using hs) (fun u hu => ht u (List.mem_cons_of_mem t hu))
          (by simpa using hr)
        rwa [List.length_append, List.length_singleton] at hrec

theorem threadHassleepers_eq (hs : s.sleepers.Holds l) (ht : ∀ t ∈ l, s.threads t ≠ none) :
    threadHassleepers s addr = .ok (l.any (s.sleepsOn addr)) :=
  threadHassleepersLoop_eq (l := []) hs ht (Nat.le_of_eq hs.num.symm)

/-- `thread_wakeup` moves the threads that sleep on `addr`, in their order, from the sleepers to the end
of the run queue, if every growth of the queue succeeds or none is needed. -/
theorem threadWakeup_exact (hq : s.runqueue.Holds r) (hs : s.sleepers.Holds l) (ht : ∀ t ∈ l, s.threads t ≠ none)
    (addr : Nat) {mem : Nat → Bool}
    (hmem : (∀ k, mem k = true) ∨ r.length + (l.filter (s.sleepsOn addr)).length < s.runqueue.size) :
    ∃ s', threadWakeup s addr mem = .ok s' ∧
      s.Woken s' (r ++ l.filter (s.sleepsOn addr)) (l.filter (!s.sleepsOn addr ·)) ∧
      threadHassleepers s' addr = .ok false := by
  have hpost := threadWakeup_post hq hs ht addr mem
  cases he : threadWakeup s addr mem with
  | error e =>
    obtain ⟨-, ⟨k, hk⟩, hfull⟩ := hpost.error_of he
    rcases hmem with hmem | hroom
    · rw [hmem k] at hk
      cases hk
    · omega
  | ok s' =>
    have hwoken := (hpost.ok_of he).1
    have hsame : s'.threads = s.threads := by rw [hwoken.rest]
    refine ⟨s', rfl, hwoken, ?_⟩
    rw [threadHassleepers_eq hwoken.sleepers]
    · have hon : s'.sleepsOn addr = s.sleepsOn addr := by
        funext u
        simp only [ThreadSys.sleepsOn, hsame]
      rw [hon]
      refine congrArg _ (List.any_eq_false.mpr fun u hu => ?_)
      simpa using (List.mem_filter.mp hu).2
    · intro u hu
      rw [hsame]
      exact ht u (List.mem_filter.mp hu).1

end

def wakeupExample : ThreadSys where
  threads t := if t < 5 then
    some
      { sleepaddr := some (if t = 3 then 9 else 7), vmspace := none, cwd := none, stage := .running, inSwitch := none }
    else none
  curthread := none
  runqueue := { size := 2, nextwrite := 0, nextread := 1, data := fun k => if k = 1 then some 1 else none }
  sleepers := { num := 3, max := 4, v := some fun k => some (k + 2) }
  zombies := arrayCreate
  numthreads := 4
  lboltCounter := 0

theorem threadWakeup_exact_grow :
    ∃ s', threadWakeup wakeupExample 7 (fun _ => true) = .ok s' ∧
      wakeupExample.Woken s' ([1] ++ [2, 3, 4].filter (wakeupExample.sleepsOn 7))
        ([2, 3, 4].filter (!wakeupExample.sleepsOn 7 ·)) ∧
      threadHassleepers s' 7 = .ok false :=
  threadWakeup_exact (s := wakeupExample) (r := [1]) (l := [2, 3, 4])
    { room := by decide
      read := by decide
      write := by decide
      stored := (by decide : ∀ k < 1, (if (1 + k) % 2 = 1 then some 1 else none) = [1][k]?) }
    { num := rfl
      le := by decide
      cell := by
        intro v hv
        cases hv
        exact (by decide : ∀ k < 3, some (k + 2) = [2, 3, 4][k]?)
      null := nofun }
    (by decide) 7 (Or.inl fun _ => rfl)

theorem Places.perm_wakeup (p : Places) (on : Nat → Bool) : (p.wakeup on).all.Perm p.all := by
  have hperm : (p.sleepers.filter on ++ p.sleepers.filter (!on ·)).Perm p.sleepers :=
    List.filter_append_perm on p.sleepers
  rw [List.perm_iff_count] at hperm ⊢
  intro u
  have hu := hperm u
  simp only [Places.all, Places.wakeup, List.count_append] at hu ⊢
  omega

theorem Places.length_wakeup (p : Places) (on : Nat → Bool) :
    (p.wakeup on).run.length + (p.wakeup on).sleepers.length = p.run.length + p.sleepers.length := by
  have hlen := List.length_eq_length_filter_add (l := p.sleepers) on
  simp only [Places.wakeup, List.length_append]
  omega

theorem ThreadSys.Ok.woken (h : s.Ok p) {on : Nat → Bool} (hw : s.Woken s' (p.wakeup on).run (p.wakeup on).sleepers) :
    s'.Ok (p.wakeup on) := by
  rw [hw.rest]
  refine ⟨h.cur, hw.queue, hw.sleepers, h.zombies, (p.perm_wakeup on).nodup_iff.mpr h.nodup, fun u => ?_, ?_,
    fun u x hx => ?_⟩
  · rw [(p.perm_wakeup on).mem_iff, h.mem]
  · have hlen := p.length_wakeup on
    have hcount := h.count
    rw [show (p.wakeup on).cur = p.cur from rfl]
    dsimp only
    omega
  · have hfits := h.fits u x hx
    refine ⟨fun hm => hfits.asleep (List.mem_filter.mp hm).1, hfits.dead, fun hm => ?_, hfits.exiting⟩
    rcases List.mem_append.mp hm with hm | hm
    · exact hfits.alive hm
    · rw [(hfits.asleep (List.mem_filter.mp hm).1).2]
      simp

theorem ThreadSys.Ok.wakeup (h : s.Ok p) (addr : Nat) (mem : Nat → Bool) :
    Post (threadWakeup s addr mem) (fun s' => s'.Ok (p.wakeup (s.sleepsOn addr)) ∧ KeepsRoom s s')
      fun e => e = .outOfMemory ∧ s.runqueue.size ≤ p.run.length + (p.sleepers.filter (s.sleepsOn addr)).length := by
  have ht : ∀ t ∈ p.sleepers, s.threads t ≠ none := fun t hmem => (h.mem t).mp (Places.mem_all.mpr (by simp [hmem]))
  refine (threadWakeup_post h.queue h.sleepers ht addr mem).mono (fun s' hs' => ⟨h.woken hs'.1, hs'.2⟩) fun e he => ?_
  exact ⟨he.1, he.2.2⟩

/-! ## Resuming a thread -/

theorem threadDestroy_eq (hc : s.curthread ≠ some t) (hx : s.threads t = some x) (hv : x.vmspace = none)
    (hw : x.cwd = none) : threadDestroy s t = .ok { s with threads := Function.update s.threads t none } := by
  unfold threadDestroy
  rw [if_neg hc, hx]
  exact if_pos ⟨hv, hw⟩

theorem destroyAll_eq {l : List Nat} (hd : l.Nodup)
    (h : ∀ t ∈ l, s.curthread ≠ some t ∧ ∃ x, s.threads t = some x ∧ x.vmspace = none ∧ x.cwd = none) :
    l.foldlM threadDestroy s = .ok { s with threads := fun t => if t ∈ l then none else s.threads t } := by
  induction l generalizing s with
  | nil => simp [pure, Except.pure]
  | cons t l ih =>
    obtain ⟨htl, hd⟩ := List.nodup_cons.mp hd
    obtain ⟨hc, x, hx, hv, hw⟩ := h t List.mem_cons_self
    rw [List.foldlM_cons, threadDestroy_eq hc hx hv hw, ok_bind, ih hd]
    · congr 2
      funext u
      by_cases hu : u = t
      · subst hu
        simp
      · simp [hu]
    · intro u hu
      obtain ⟨huc, y, hy, hyv, hyw⟩ := h u (List.mem_cons_of_mem _ hu)
      have hut : u ≠ t := fun he => htl (he ▸ hu)
      exact ⟨huc, y, by rw [← hy]; exact Function.update_of_ne hut _ _, hyv, hyw⟩

theorem exorcise_loop {a : PtrArray Nat} {l : List Nat} (ha : a.Holds l)
    (f : ThreadSys → Nat → Except ThreadFault ThreadSys) :
    (List.range a.num).foldlM (fun t i => do let z ← expectRoom (arrayGetguy a i); f t z) s = l.foldlM f s := by
  rw [ha.num]
  suffices hk : ∀ k ≤ l.length, (List.range k).foldlM (fun t i => do let z ← expectRoom (arrayGetguy a i); f t z) s =
      (l.take k).foldlM f s by
    rw [hk l.length (Nat.le_refl _), List.take_length]
  intro k hk
  induction k with
  | zero => rfl
  | succ k ih =>
    have hget : l[k]? = some l[k] := List.getElem?_eq_getElem hk
    have hguy : expectRoom (arrayGetguy a k) = .ok l[k] := by rw [ha.getguy hget]; rfl
    rw [List.range_succ, List.foldlM_append, ih (Nat.le_of_succ_le hk), List.take_add_one, List.foldlM_append, hget]
    simp only [List.foldlM_cons, List.foldlM_nil, hguy, Option.toList_some]
    rfl

section
variable (h : s.Ok p)
include h

theorem ThreadSys.Ok.exorcise : ∃ s', Os161.exorcise s = .ok s' ∧ s'.Ok p.exorcise ∧ KeepsRoom s s' ∧
    ∀ t, t ∉ p.zombies → s'.threads t = s.threads t := by
  have hall : p.all.Nodup := h.nodup
  have hzo : ∀ t ∈ p.zombies, s.curthread ≠ some t ∧ ∃ x, s.threads t = some x ∧ x.vmspace = none ∧ x.cwd = none := by
    intro t ht
    obtain ⟨x, hx⟩ := Option.ne_none_iff_exists'.mp ((h.mem t).mp (Places.mem_all.mpr (Or.inr (Or.inr (Or.inr ht)))))
    refine ⟨fun hc => ?_, x, hx, (h.fits t x hx).dead ht⟩
    exact (Places.not_mem_of_cur hall (h.cur.symm.trans hc)).2.2 ht
  have hnd : p.zombies.Nodup := (List.nodup_append.mp hall).2.1
  obtain ⟨b, hset, hb, -⟩ := h.zombies.clear false
  refine ⟨{ s with threads := fun t => if t ∈ p.zombies then none else s.threads t, zombies := b }, ?_, ?_,
    ⟨Nat.le_refl _, Nat.le_refl _⟩, fun t ht => if_neg ht⟩
  · unfold Os161.exorcise
    rw [exorcise_loop h.zombies, destroyAll_eq hnd hzo, ok_bind]
    simp only [hset]
    rfl
  · have hdisj : ∀ t, t ∈ p.exorcise.all ↔ t ∈ p.all ∧ t ∉ p.zombies := by
      intro t
      have happ := (List.nodup_append.mp hall).2.2
      simp only [Places.all, Places.exorcise, List.append_nil, List.mem_append] at happ ⊢
      constructor
      · intro ht
        exact ⟨Or.inl ht, fun hz => happ t ht t hz rfl⟩
      · rintro ⟨ht | ht, hz⟩
        · exact ht
        · exact absurd ht hz
    refine ⟨h.cur, h.queue, h.sleepers, hb, ?_, fun t => ?_, h.count, fun t x hx => ?_⟩
    · rw [Places.all, Places.exorcise, List.append_nil]
      exact (List.nodup_append.mp hall).1
    · rw [hdisj, h.mem]
      by_cases hz : t ∈ p.zombies <;> simp [hz]
    · have hx' : s.threads t = some x := by
        by_cases hz : t ∈ p.zombies
        · simp [hz] at hx
        · simpa [hz] using hx
      have hfits := h.fits t x hx'
      exact ⟨hfits.asleep, (fun hm => by cases hm), hfits.alive, hfits.exiting⟩

theorem ThreadSys.Ok.picked (hc : p.cur = none) {r : List Nat} (hr : p.run = t :: r) {q : Queue Nat} (hq : q.Holds r) :
    ({ s with runqueue := q, curthread := some t } : ThreadSys).Ok { p with cur := some t, run := r } := by
  have hperm : ({ p with cur := some t, run := r } : Places).all.Perm p.all := by
    rw [List.perm_iff_count]
    intro u
    simp only [Places.all, hc, hr, List.count_append, List.count_cons, List.count_nil, Option.toList_some,
      Option.toList_none]
    omega
  refine ⟨rfl, hq, h.sleepers, h.zombies, hperm.nodup_iff.mpr h.nodup, fun u => ?_, ?_, fun u x hx => ?_⟩
  · rw [hperm.mem_iff, h.mem]
  · have hcount := h.count
    rw [hc, hr] at hcount
    simp only [Option.toList_some, Option.toList_none, List.length_cons, List.length_nil] at hcount ⊢
    omega
  · have hfits := h.fits u x hx
    exact ⟨hfits.asleep, hfits.dead, fun hm => hfits.alive (by rw [hr]; exact List.mem_cons_of_mem _ hm), hfits.exiting⟩

structure Scheduled (s s' : ThreadSys) (p p' : Places) : Prop where
  ok : s'.Ok p'
  keeps : KeepsRoom s s'
  cur : p'.cur = p.run.head?
  run : p'.run = p.run.tail
  sleepers : p'.sleepers = p.sleepers
  others : ∀ u, u ∈ p'.sleepers ∨ u ∈ p'.run → s'.threads u = s.threads u

theorem ThreadSys.Ok.resume (hc : p.cur = some t) (hx : ∀ x, s.threads t = some x → x.inSwitch ≠ some .zomb) :
    Post (Os161.resume s t) (fun s' => ∃ z, s'.Ok { p with zombies := z } ∧ KeepsRoom s s' ∧
      ∀ u, u ∉ p.zombies → u ≠ t → s'.threads u = s.threads u) fun _ => False := by
  obtain ⟨x, ht⟩ := Option.ne_none_iff_exists'.mp ((h.mem t).mp (Places.mem_all.mpr (Or.inl hc)))
  obtain ⟨s₁, hex, h₁, hkeeps, hothers⟩ := h.exorcise
  unfold Os161.resume
  rw [ht]
  dsimp only
  cases hin : x.inSwitch with
  | none => exact ⟨p.zombies, h, .refl s, fun _ _ _ => rfl⟩
  | some st =>
    cases st with
    | run =>
      rw [hex]
      exact ⟨[], h₁, hkeeps, fun u hu _ => hothers u hu⟩
    | ready =>
      rw [hex]
      exact ⟨[], h₁, hkeeps, fun u hu _ => hothers u hu⟩
    | sleep =>
      rw [hex]
      refine ⟨[], h₁.modifyCur hc fun y hy => (h₁.fits t y hy).exiting, ⟨hkeeps.queue, hkeeps.sleepers⟩,
        fun u hu hut => ?_⟩
      rw [modify_threads, if_neg hut, hothers u hu]
    | zomb => exact absurd hin (hx x ht)

theorem ThreadSys.Ok.scheduler (hc : p.cur = none) :
    Post (Os161.scheduler s) (fun s' => ∃ p', Scheduled s s' p p') fun e => e = .idle ∧ p.run = [] := by
  unfold Os161.scheduler
  rw [if_neg (by rw [h.cur, hc]; simp)]
  by_cases hr : p.run = []
  · rw [if_pos (h.queue.empty_iff.mpr hr)]
    exact ⟨rfl, hr⟩
  · obtain ⟨t, r, hrun⟩ := List.exists_cons_of_ne_nil hr
    have hholds := h.queue
    rw [hrun] at hholds
    obtain ⟨q, hrem, hq, hsize⟩ := hholds.remhead
    rw [if_neg (fun he => hr (h.queue.empty_iff.mp he)), hrem]
    have h₁ := h.picked hc hrun hq
    have halive : ∀ x, s.threads t = some x → x.inSwitch ≠ some .zomb := by
      intro x hx
      exact (h.fits t x hx).alive (by rw [hrun]; exact List.mem_cons_self)
    have hpost := h₁.resume rfl halive
    refine hpost.mono (fun s' hs' => ?_) fun _ he => he.elim
    obtain ⟨z, hok, hkeeps, hothers⟩ := hs'
    refine ⟨_, hok, ⟨by rw [← hsize]; exact hkeeps.queue, hkeeps.sleepers⟩, by rw [hrun]; rfl, by rw [hrun]; rfl, rfl,
      ?_⟩
    intro u hu
    obtain ⟨htr, hts, -⟩ := Places.not_mem_of_cur h₁.nodup rfl
    refine hothers u (Places.not_zombie h₁.nodup hu.symm) ?_
    rintro rfl
    exact hu.elim hts htr

/-! ## New threads -/

theorem ThreadSys.Ok.forked (hnew : s.threads t = none) {q : Queue Nat} (hq : q.Holds (p.run ++ [t]))
    (cwd : Option Nat) : ({ s with
      runqueue := q
      threads := Function.update s.threads t (some {
        sleepaddr := none, vmspace := none, cwd := cwd, stage := .running, inSwitch := none })
      numthreads := s.numthreads + 1 } : ThreadSys).Ok (p.fork t) := by
  have hnot : t ∉ p.all := fun hm => (h.mem t).mp hm hnew
  have hperm : (p.fork t).all.Perm (t :: p.all) := by
    rw [List.perm_iff_count]
    intro u
    simp only [Places.all, Places.fork, List.count_append, List.count_cons, List.count_nil]
    omega
  refine ⟨h.cur, hq, h.sleepers, h.zombies, ?_, fun u => ?_, ?_, fun u x hx => ?_⟩
  · rw [hperm.nodup_iff, List.nodup_cons]
    exact ⟨hnot, h.nodup⟩
  · rw [hperm.mem_iff, List.mem_cons, h.mem]
    by_cases hu : u = t
    · subst hu
      simp
    · simp [hu]
  · have hcount := h.count
    simp only [Places.fork, List.length_append, List.length_singleton]
    omega
  · have hmem : ∀ u, u ∈ p.sleepers ∨ u ∈ p.zombies → u ≠ t := by
      rintro u hu rfl
      exact hnot (Places.mem_all.mpr (Or.inr (Or.inr hu)))
    by_cases hu : u = t
    · subst hu
      simp only [Function.update_self, Option.some.injEq] at hx
      subst hx
      exact ⟨fun hm => absurd rfl (hmem u (Or.inl hm)), fun hm => absurd rfl (hmem u (Or.inr hm)),
        fun _ => by simp, by simp⟩
    · simp only [Function.update_of_ne hu] at hx
      have hfits := h.fits u x hx
      refine ⟨hfits.asleep, hfits.dead, fun hm => hfits.alive ?_, hfits.exiting⟩
      simpa [Places.fork, hu] using hm

structure ThreadForked (s s' : ThreadSys) (p p' : Places) (t : Nat) : Prop where
  ok : s'.Ok p'
  keeps : KeepsRoom s s'
  places : (p' = p ∧ s'.numthreads = s.numthreads) ∨ (p' = p.fork t ∧ s'.numthreads = s.numthreads + 1 ∧
    s'.numthreads ≤ s'.runqueue.size ∧ s'.numthreads ≤ s'.sleepers.max)
  others : ∀ u, u ≠ t → s'.threads u = s.threads u

theorem ThreadSys.Ok.fork (hc : p.cur ≠ none) (hnew : s.threads t = none) (mem : ForkMem) :
    Post (threadFork s t mem) (fun s' => ∃ p', ThreadForked s s' p p' t) fun _ => False := by
  obtain ⟨c, hcur⟩ := Option.ne_none_iff_exists'.mp hc
  obtain ⟨y, hy⟩ := Option.ne_none_iff_exists'.mp ((h.mem c).mp (Places.mem_all.mpr (Or.inl hcur)))
  have hbind : s.curthread.bind s.threads = some y := by rw [h.cur, hcur, Option.bind_some, hy]
  -- whichever call returns ENOMEM, only room has been made
  have hroom : ∀ {a b : PtrArray Nat} {q : Queue Nat}, a.Holds p.sleepers → b.Holds p.zombies → q.Holds p.run →
      ({ s with sleepers := a, zombies := b, runqueue := q } : ThreadSys).Ok p :=
    fun ha hb hq => { h with sleepers := ha, zombies := hb, queue := hq }
  have hfail : ∀ {a b : PtrArray Nat} {q : Queue Nat}, a.Holds p.sleepers → b.Holds p.zombies → q.Holds p.run →
      s.sleepers.max ≤ a.max → s.runqueue.size ≤ q.size →
      ∃ p', ThreadForked s { s with sleepers := a, zombies := b, runqueue := q } p p' t := by
    intro a b q ha hb hq hmax hsize
    exact ⟨p, hroom ha hb hq, ⟨hsize, hmax⟩, Or.inl ⟨rfl, rfl⟩, fun _ _ => rfl⟩
  unfold threadFork
  rw [hbind]
  dsimp only
  split
  · obtain ⟨a, heqa, ha, hna, hmax⟩ | heq := h.sleepers.preallocate_cases (s.numthreads + 1) mem.sleepers
    · obtain ⟨b, heqb, hb, -⟩ | heq := h.zombies.preallocate_cases (s.numthreads + 1) mem.zombies
      · obtain ⟨q, heqq, hq, hsize, hnq⟩ | heq := h.queue.preallocate (s.numthreads + 1) mem.runqueue
        · obtain ⟨r, heqr, hr, hsize'⟩ | ⟨heq, -⟩ := hq.addtail_cases t mem.runnable
          · simp only [heqa, orFail, heqb, heqq, heqr]
            refine ⟨p.fork t, (hroom ha hb hq).forked hnew hr y.cwd,
              ⟨Nat.le_trans hsize hsize', hmax⟩, Or.inr ⟨rfl, rfl, Nat.le_trans hnq hsize', hna⟩, fun u hu => ?_⟩
            exact Function.update_of_ne hu _ _
          · simp only [heqa, orFail, heqb, heqq, heq]
            exact hfail ha hb hq hmax hsize
        · simp only [heqa, orFail, heqb, heq]
          exact hfail ha hb h.queue hmax (Nat.le_refl _)
      · simp only [heqa, orFail, heq]
        exact hfail ha h.zombies h.queue hmax (Nat.le_refl _)
    · simp only [heq, orFail]
      exact hfail h.sleepers h.zombies h.queue (Nat.le_refl _) (Nat.le_refl _)
  · exact hfail h.sleepers h.zombies h.queue (Nat.le_refl _) (Nat.le_refl _)

end

/-! ## Steps and runs -/

structure Stepped (s s' : ThreadSys) (p' : Places) : Prop where
  ok : s'.Ok p'
  keeps : KeepsRoom s s'
  count : s'.numthreads ≤ s.numthreads ∨ (s'.numthreads ≤ s'.runqueue.size ∧ s'.numthreads ≤ s'.sleepers.max)

section
variable (h : s.Ok p)
include h

theorem ThreadSys.Ok.yield_count (h' : s'.Ok p.yield) : s'.numthreads = s.numthreads := by
  rw [h.count, h'.count]
  simp only [Places.yield, Option.toList_none, List.length_nil, List.length_append]
  omega

theorem ThreadSys.Ok.sleep_count (h' : s'.Ok p.sleep) : s'.numthreads = s.numthreads := by
  rw [h.count, h'.count]
  simp only [Places.sleep, Option.toList_none, List.length_nil, List.length_append]
  omega

theorem ThreadSys.Ok.wakeup_count {on : Nat → Bool} (h' : s'.Ok (p.wakeup on)) : s'.numthreads = s.numthreads := by
  have hlen := p.length_wakeup on
  have hcount := h.count
  have hcount' := h'.count
  rw [show (p.wakeup on).cur = p.cur from rfl] at hcount'
  omega

theorem ThreadSys.Ok.hardclock (mem : Nat → Bool) (memYield : Bool) :
    Post (Os161.hardclock s mem memYield) (fun s' => ∃ p', Stepped s s' p') (· = .outOfMemory) := by
  unfold Os161.hardclock
  split
  · have h₀ : ({ s with lboltCounter := 0 } : ThreadSys).Ok p := { h with }
    refine ((h₀.wakeup lbolt mem).mono (fun _ => id) fun e he => he.1).bind fun s₁ _ hs₁ => ?_
    obtain ⟨h₁, hk₁⟩ := hs₁
    refine (h₁.yield memYield).mono (fun s₂ hs₂ => ?_) fun e he => he.1
    refine ⟨_, hs₂.1, KeepsRoom.trans ⟨hk₁.queue, hk₁.sleepers⟩ hs₂.2, Or.inl (Nat.le_of_eq ?_)⟩
    rw [h₁.yield_count hs₂.1, h₀.wakeup_count h₁]
  · have h₀ : ({ s with lboltCounter := s.lboltCounter + 1 } : ThreadSys).Ok p := { h with }
    refine (h₀.yield memYield).mono (fun s₁ hs₁ => ?_) fun e he => he.1
    exact ⟨_, hs₁.1, ⟨hs₁.2.queue, hs₁.2.sleepers⟩, Or.inl (Nat.le_of_eq (h₀.yield_count hs₁.1))⟩

theorem ThreadSys.Ok.modified {f : Thread → Thread}
    (hf : ∀ t x, s.curthread = some t → s.threads t = some x → (f x).stage ≠ .running → (f x).vmspace = none) :
    Stepped s (s.modifyCur f) p := by
  unfold ThreadSys.modifyCur
  cases hc : s.curthread with
  | none => exact ⟨h, .refl s, Or.inl (Nat.le_refl _)⟩
  | some t =>
    refine ⟨h.modifyCur (h.cur.symm.trans hc) fun x hx => hf t x hc hx, ⟨Nat.le_refl _, Nat.le_refl _⟩,
      Or.inl (Nat.le_refl _)⟩

theorem ThreadSys.Ok.step {a : ThreadAct} (ha : a.Callable s) :
    Post (threadStep s a) (fun s' => ∃ p', Stepped s s' p') fun e => e = .outOfMemory ∨ e = .idle := by
  -- a thread that is not in `thread_exit` may have an address space
  have hrunning : s.stageIs .running = true → ∀ t x, s.curthread = some t → s.threads t = some x →
      x.stage = .running := by
    intro hs t x hc hx
    obtain ⟨t', x', hc', hx', hst⟩ := stageIs_iff.mp hs
    obtain rfl := Option.some.inj (hc.symm.trans hc')
    obtain rfl := Option.some.inj (hx.symm.trans hx')
    exact hst
  cases a with
  | fork newguy mem =>
    obtain ⟨t, x, hc, -⟩ := stageIs_iff.mp ha.1
    have hcur : p.cur ≠ none := by
      rw [← h.cur, hc]
      simp
    refine (h.fork hcur ha.2 mem).mono (fun s' hs' => ?_) fun _ he => he.elim
    obtain ⟨p', hf⟩ := hs'
    refine ⟨p', hf.ok, hf.keeps, ?_⟩
    rcases hf.places with ⟨-, hcount⟩ | ⟨-, -, hroom⟩
    · exact Or.inl (Nat.le_of_eq hcount)
    · exact Or.inr hroom
  | yield mem =>
    refine (h.yield mem).mono (fun s' hs' => ?_) fun _ he => Or.inl he.1
    exact ⟨_, hs'.1, hs'.2, Or.inl (Nat.le_of_eq (h.yield_count hs'.1))⟩
  | sleep addr mem =>
    obtain ⟨t, hc⟩ := Option.ne_none_iff_exists'.mp ha
    refine (h.sleep (h.cur.symm.trans hc) addr mem).mono (fun s' hs' => ?_) fun _ he => Or.inl he.1
    exact ⟨_, hs'.1, hs'.2.1, Or.inl (Nat.le_of_eq (h.sleep_count hs'.1))⟩
  | wakeup addr mem =>
    refine (h.wakeup addr mem).mono (fun s' hs' => ?_) fun _ he => Or.inl he.1
    exact ⟨_, hs'.1, hs'.2, Or.inl (Nat.le_of_eq (h.wakeup_count hs'.1))⟩
  | hardclock mem memYield => exact (h.hardclock mem memYield).mono (fun _ => id) fun _ => Or.inl
  | scheduler =>
    have hc : p.cur = none := h.cur.symm.trans ha
    refine (h.scheduler hc).mono (fun s' hs' => ?_) fun _ he => Or.inr he.1
    obtain ⟨p', hsch⟩ := hs'
    refine ⟨p', hsch.ok, hsch.keeps, Or.inl ?_⟩
    rw [hsch.ok.count, h.count, hsch.cur, hsch.run, hsch.sleepers, hc]
    cases p.run <;> simp [Nat.add_comm]
  | exitSpace => exact ⟨p, h.modified fun _ _ _ _ _ => rfl⟩
  | exitCwd =>
    refine ⟨p, h.modified fun t x hc hx _ => ?_⟩
    obtain ⟨t', x', hc', hx', hst⟩ := stageIs_iff.mp ha
    obtain rfl := Option.some.inj (hc.symm.trans hc')
    obtain rfl := Option.some.inj (hx.symm.trans hx')
    exact (h.fits t x hx).exiting (by rw [hst]; simp)
  | exitEnd mem =>
    refine (h.exitEnd ha mem).mono (fun s' hs' => ?_) fun _ he => Or.inl he.1
    refine ⟨_, hs'.1, hs'.2, Or.inl ?_⟩
    rw [hs'.1.count, h.count]
    simp only [Places.exit, Option.toList_none, List.length_nil]
    omega
  | setVmspace vmspace =>
    exact ⟨p, h.modified fun t x hc hx hst => absurd (hrunning ha t x hc hx) hst⟩
  | setCwd cwd => exact ⟨p, h.modified fun t x _ hx => (h.fits t x hx).exiting⟩

end

theorem ThreadSys.Ok.bootstrap (me : Nat) :
    (threadBootstrap me).Ok { cur := some me, run := [], sleepers := [], zombies := [] } := by
  refine ⟨rfl, .create (by decide), .create, .create, List.nodup_singleton me, fun t => ?_, rfl, fun t x hx => ?_⟩
  · by_cases ht : t = me <;> simp [Places.all, threadBootstrap, ht]
  · refine ⟨by simp, by simp, by simp, ?_⟩
    by_cases ht : t = me
    · subst ht
      simp only [threadBootstrap, Function.update_self, Option.some.injEq] at hx
      subst hx
      simp
    · simp [threadBootstrap, ht] at hx

theorem ThreadSys.Ok.reach {me : Nat} (hr : Reach threadStep (fun s a => a.Callable s) (threadBootstrap me) s) :
    ∃ p, s.Ok p := by
  refine Reach.invariant (I := fun s => ∃ p, s.Ok p) ⟨_, .bootstrap me⟩ (fun s a s' hI ha hs => ?_) hr
  obtain ⟨p, hp⟩ := hI
  obtain ⟨p', hp'⟩ := (hp.step ha).ok_of hs
  exact ⟨p', hp'.ok⟩

def ThreadSys.places (s : ThreadSys) : List Nat :=
  s.curthread.toList ++ s.runqueue.toList ++ s.sleepers.toList ++ s.zombies.toList

structure ThreadSys.InPlace (s : ThreadSys) : Prop where
  once : s.places.Nodup
  all : ∀ t, t ∈ s.places ↔ s.threads t ≠ none
  asleep : ∀ t ∈ s.sleepers.toList, ∃ x, s.threads t = some x ∧ x.sleepaddr ≠ none
  count : s.numthreads = s.curthread.toList.length + s.runqueue.toList.length + s.sleepers.toList.length
  dead : ∀ t ∈ s.zombies.toList, s.curthread ≠ some t ∧ ∃ x, s.threads t = some x ∧ x.vmspace = none ∧ x.cwd = none

theorem ThreadSys.Ok.inPlace (h : s.Ok p) : s.InPlace := by
  have hplaces : s.places = p.all := by
    rw [ThreadSys.places, h.cur, h.queue.toList, h.sleepers.toList, h.zombies.toList, Places.all]
  constructor
  case once => rw [hplaces]; exact h.nodup
  case all => rw [hplaces]; exact h.mem
  case asleep =>
    rw [h.sleepers.toList]
    intro t ht
    obtain ⟨x, hx⟩ := Option.ne_none_iff_exists'.mp ((h.mem t).mp (Places.mem_all.mpr (Or.inr (Or.inr (Or.inl ht)))))
    exact ⟨x, hx, ((h.fits t x hx).asleep ht).1⟩
  case count => rw [h.cur, h.queue.toList, h.sleepers.toList, h.count]
  case dead =>
    rw [h.zombies.toList]
    intro t ht
    obtain ⟨x, hx⟩ := Option.ne_none_iff_exists'.mp ((h.mem t).mp (Places.mem_all.mpr (Or.inr (Or.inr (Or.inr ht)))))
    refine ⟨fun hc => ?_, x, hx, (h.fits t x hx).dead ht⟩
    exact (Places.not_mem_of_cur h.nodup (h.cur.symm.trans hc)).2.2 ht

/-- In every state reached from the bootstrap each thread is in one place, and
a call can fail only for want of memory; in particular no assertion of
`thread_destroy` fails and no dead or destroyed thread is switched to. -/
theorem threads_in_one_place (me : Nat) (s : ThreadSys)
    (h : Reach threadStep (fun s a => a.Callable s) (threadBootstrap me) s) :
    s.InPlace ∧ ∀ a, a.Callable s → ∀ e, threadStep s a = .error e → e = .outOfMemory ∨ e = .idle := by
  obtain ⟨p, hp⟩ := ThreadSys.Ok.reach h
  exact ⟨hp.inPlace, fun a ha e he => (hp.step ha).error_of he⟩

instance (s : ThreadSys) (a : ThreadAct) : Decidable (a.Callable s) :=
  match a with
  | .fork _ _ => inferInstanceAs (Decidable (_ ∧ _))
  | .yield _ | .wakeup _ _ | .hardclock _ _ => inferInstanceAs (Decidable True)
  | .sleep _ _ => inferInstanceAs (Decidable (s.curthread ≠ none))
  | .scheduler => inferInstanceAs (Decidable (s.curthread = none))
  | .exitSpace | .setVmspace _ | .setCwd _ | .exitCwd | .exitEnd _ => inferInstanceAs (Decidable (_ = true))

theorem threads_in_one_place_exit :
    ∃ s, Reach threadStep (fun s a => a.Callable s) (threadBootstrap 0) s ∧
      s.sleepers.toList = [0] ∧ s.zombies.toList = [1] ∧ s.InPlace := by
  have hreach : ∃ s, Reach threadStep (fun s a => a.Callable s) (threadBootstrap 0) s ∧
      s.sleepers.toList = [0] ∧ s.zombies.toList = [1] :=
    Reach.of_leads (Q := fun s : ThreadSys => s.sleepers.toList = [0] ∧ s.zombies.toList = [1])
      (l := [.fork 1 ⟨true, true, true, true, true⟩, .sleep 7 true, .scheduler, .exitSpace, .exitCwd, .exitEnd true])
      (by decide +kernel)
  obtain ⟨s, hs, h₀, h₁⟩ := hreach
  exact ⟨s, hs, h₀, h₁, (threads_in_one_place 0 s hs).1⟩

end Os161
