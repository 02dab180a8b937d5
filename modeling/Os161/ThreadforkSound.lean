import Os161.Threadfork
import Os161.ThreadSound

/-!
# A failing thread_fork

Where `thread_fork` fails, the thread system keeps its threads and only its
containers may have grown, the directory has its references back, and the
thread, its name and its stack are freed. The file table of the new thread is
not: no exit of `thread_fork` frees it.
-/

namespace Os161.Fork

open Outcome

/-! ## With interrupts off -/

structure RoomOnly (s s' : ThreadSys) : Prop where
  threads : s'.threads = s.threads
  cur : s'.curthread = s.curthread
  runqueue : s'.runqueue.toList = s.runqueue.toList
  sleepers : s'.sleepers.toList = s.sleepers.toList
  zombies : s'.zombies.toList = s.zombies.toList
  numthreads : s'.numthreads = s.numthreads

theorem RoomOnly.refl (s : ThreadSys) : RoomOnly s s := ⟨rfl, rfl, rfl, rfl, rfl, rfl⟩

variable {s s' : ThreadSys} {p : Places} {t : Nat} {cwd : Option Nat} {mem : ForkMem} {e : Errno}

theorem orReturn_fails {β : Type} {r : Except ContainerFault β} {k : β → Except ThreadFault (Option Errno × ThreadSys)}
    (hf : orReturn s r k = .ok (some e, s')) : (s' = s ∧ e = .enomem) ∨ ∃ b, r = .ok b ∧ k b = .ok (some e, s') := by
  unfold orReturn at hf
  split at hf
  · exact Or.inr ⟨_, rfl, hf⟩
  · simp only [Except.ok.injEq, Prod.mk.injEq, Option.some.injEq] at hf
    exact Or.inl ⟨hf.2.symm, hf.1.symm⟩
  · cases hf

theorem holds_of_ok {β : Type} {r : Except ContainerFault β} {b : β} {P R : β → Prop}
    (h : (∃ x, r = .ok x ∧ P x ∧ R x) ∨ r = .error .enomem) (hb : r = .ok b) : P b := by
  obtain ⟨x, rfl, hx, -⟩ | rfl := h
  · exact Except.ok.inj hb ▸ hx
  · cases hb

theorem forkAtomic_fails (h : s.Ok p) (hf : forkAtomic s t cwd mem = .ok (some e, s')) :
    e = .enomem ∧ RoomOnly s s' := by
  -- whichever call fails, the calls before it have made room and nothing else
  have hroom : ∀ {a b : PtrArray Nat} {q : Queue Nat}, a.Holds p.sleepers → b.Holds p.zombies → q.Holds p.run →
      RoomOnly s { s with sleepers := a, zombies := b, runqueue := q } := by
    intro a b q ha hb hq
    exact ⟨rfl, rfl, by rw [hq.toList, h.queue.toList], by rw [ha.toList, h.sleepers.toList],
      by rw [hb.toList, h.zombies.toList], rfl⟩
  unfold forkAtomic at hf
  obtain ⟨rfl, rfl⟩ | ⟨a, ha, hf⟩ := orReturn_fails hf
  · exact ⟨rfl, RoomOnly.refl _⟩
  have ha' := holds_of_ok (h.sleepers.preallocate_cases _ _) ha
  obtain ⟨rfl, rfl⟩ | ⟨b, hb, hf⟩ := orReturn_fails hf
  · exact ⟨rfl, hroom ha' h.zombies h.queue⟩
  have hb' := holds_of_ok (h.zombies.preallocate_cases _ _) hb
  obtain ⟨rfl, rfl⟩ | ⟨q, hq, hf⟩ := orReturn_fails hf
  · exact ⟨rfl, hroom ha' hb' h.queue⟩
  have hq' := holds_of_ok (h.queue.preallocate _ _) hq
  obtain ⟨rfl, rfl⟩ | ⟨q, -, hf⟩ := orReturn_fails hf
  · exact ⟨rfl, hroom ha' hb' hq'⟩
  simp at hf

theorem orFail_eq {β : Type} {r : Except ContainerFault β} {k : β → Except ThreadFault ThreadSys}
    {k' : β → Except ThreadFault (Option Errno × ThreadSys)} (hk : ∀ b, k b = (k' b).map Prod.snd) :
    orFail s r k = (orReturn s r k').map Prod.snd := by
  cases r with
  | ok b => exact hk b
  | error e => cases e <;> rfl

theorem threadFork_eq {cur : Thread} (hcur : s.curthread.bind s.threads = some cur) (hc : mem.create = true) :
    Os161.threadFork s t mem = (forkAtomic s t cur.cwd mem).map Prod.snd := by
  unfold Os161.threadFork forkAtomic
  rw [hcur]
  dsimp only
  rw [if_pos hc]
  exact orFail_eq fun _ => orFail_eq fun _ => orFail_eq fun _ => orFail_eq fun _ => rfl

/-! ## The heap -/

def Allocs.blocks (m : Allocs) : List Nat :=
  m.stack.toList ++ m.storage :: (m.array.toList ++ m.ft.toList ++ m.name.toList ++ m.thread.toList)

def Allocs.Fresh (m : Allocs) (heap : List Nat) : Prop := (m.blocks ++ heap).Nodup

theorem ftCreate_blocks {m : Allocs} {l : List Nat} (h : ftCreate m = .ok l) :
    (l = [] ↔ m.ft = none) ∧ l.Sublist (m.storage :: (m.array.toList ++ m.ft.toList)) := by
  unfold ftCreate at h
  split at h
  · simp_all
  · split at h
    · cases h
    · obtain ⟨a, -, h⟩ := bind_eq_ok.mp h
      simp only [Except.ok.injEq] at h
      subst h
      split <;> simp_all

theorem erase_blocks {l heap : List Nat} {thread name : Nat} (h : (l ++ name :: thread :: heap).Nodup) :
    ((l ++ name :: thread :: heap).erase name).erase thread = l ++ heap := by
  rw [List.nodup_append] at h
  obtain ⟨-, hn, hd⟩ := h
  have hname : name ∉ l := fun hm => hd name hm name (by simp) rfl
  have hthread : thread ∉ l := fun hm => hd thread hm thread (by simp) rfl
  rw [List.erase_append_right _ hname, List.erase_cons_head, List.erase_append_right _ hthread, List.erase_cons_head]

theorem vopDecref_incref {refcount : Nat → Nat} (hc : ∀ v, cwd = some v → 0 < refcount v) :
    vopDecref (vopIncref refcount cwd) cwd = refcount := by
  cases cwd with
  | none => rfl
  | some v =>
    have hpos := hc v rfl
    simp only [vopIncref, vopDecref, Function.update_self, Nat.add_sub_cancel, Function.update_idem,
      Function.update_eq_self]
    rw [if_pos (by omega)]

/-! ## The call -/

structure State.Ok (s : State) (p : Places) : Prop where
  sys : s.sys.Ok p
  cwd : ∀ cur v, s.sys.curthread.bind s.sys.threads = some cur → cur.cwd = some v → 0 < s.refcount v

structure NoTrace (s s' : State) : Prop where
  sys : RoomOnly s.sys s'.sys
  refcount : s'.refcount = s.refcount
  heap : ∀ b, b ∈ s'.heap ↔ b ∈ s.heap

section
variable {s s' : State} {m : Allocs} (h : s.Ok p) (hm : m.Fresh s.heap) (hf : threadFork s m = .ok (some e, s'))
include h hm hf

theorem threadFork_fails : e = .enomem ∧ RoomOnly s.sys s'.sys ∧ s'.refcount = s.refcount ∧
    ((m.thread = none ∨ m.name = none) ∧ s'.heap = s.heap ∨
      ∃ l, ftCreate m = .ok l ∧ m.thread ≠ none ∧ m.name ≠ none ∧ s'.heap = l ++ s.heap) := by
  unfold threadFork at hf
  split at hf
  · cases hf
  rename_i cur hcur
  obtain ⟨⟨newguy, heap⟩, hc, hf⟩ := bind_eq_ok.mp hf
  unfold threadCreate at hc
  cases ht : m.thread with
  | none =>
    simp only [ht, Except.ok.injEq, Prod.mk.injEq] at hc
    obtain ⟨rfl, rfl⟩ := hc
    simp only [Except.ok.injEq, Prod.mk.injEq, Option.some.injEq] at hf
    obtain ⟨rfl, rfl⟩ := hf
    exact ⟨rfl, RoomOnly.refl _, rfl, Or.inl ⟨Or.inl rfl, rfl⟩⟩
  | some thread =>
  cases hn : m.name with
  | none =>
    simp only [ht, hn, List.erase_cons_head, Except.ok.injEq, Prod.mk.injEq] at hc
    obtain ⟨rfl, rfl⟩ := hc
    simp only [Except.ok.injEq, Prod.mk.injEq, Option.some.injEq] at hf
    obtain ⟨rfl, rfl⟩ := hf
    exact ⟨rfl, RoomOnly.refl _, rfl, Or.inl ⟨Or.inr rfl, rfl⟩⟩
  | some name =>
  simp only [ht, hn] at hc
  obtain ⟨l, hl, hc⟩ := bind_eq_ok.mp hc
  simp only [Except.ok.injEq, Prod.mk.injEq] at hc
  obtain ⟨rfl, rfl⟩ := hc
  have hnodup : (l ++ name :: thread :: s.heap).Nodup := by
    refine hm.sublist ?_
    have hsub := (ftCreate_blocks hl).2
    simp only [Allocs.blocks, ht, hn, Option.toList_some, List.append_assoc]
    refine List.Sublist.trans ?_ (List.sublist_append_right _ _)
    have := hsub.append (List.Sublist.refl (name :: thread :: s.heap))
    simpa using this
  cases hs : m.stack with
  | none =>
    simp only [hs, Except.ok.injEq, Prod.mk.injEq, Option.some.injEq] at hf
    obtain ⟨rfl, rfl⟩ := hf
    exact ⟨rfl, RoomOnly.refl _, rfl, Or.inr ⟨l, hl, nofun, nofun, erase_blocks hnodup⟩⟩
  | some stack =>
    simp only [hs] at hf
    obtain ⟨⟨result, sys⟩, ha, hf⟩ := bind_eq_ok.mp hf
    cases result with
    | none => simp at hf
    | some e' =>
      simp only [List.erase_cons_head, Except.ok.injEq, Prod.mk.injEq, Option.some.injEq] at hf
      obtain ⟨rfl, rfl⟩ := hf
      obtain ⟨he, hroom⟩ := forkAtomic_fails h.sys ha
      exact ⟨he, hroom, vopDecref_incref fun v => h.cwd cur v hcur,
        Or.inr ⟨l, hl, nofun, nofun, erase_blocks hnodup⟩⟩

/-- No trace is left exactly if there was no file table yet, or none at all. -/
theorem failed_fork_no_trace_iff : NoTrace s s' ↔ m.thread = none ∨ m.name = none ∨ m.ft = none := by
  obtain ⟨-, hroom, hcount, ⟨hnone, hheap⟩ | ⟨l, hl, ht, hn, hheap⟩⟩ := threadFork_fails h hm hf
  · constructor
    · intro _
      exact hnone.elim Or.inl fun hn => Or.inr (Or.inl hn)
    · intro _
      exact ⟨hroom, hcount, fun b => by rw [hheap]⟩
  · obtain ⟨hnil, hsub⟩ := ftCreate_blocks hl
    constructor
    · intro htrace
      refine Or.inr (Or.inr (hnil.mp ?_))
      -- a block of the table was not in use before
      apply List.eq_nil_iff_forall_not_mem.mpr
      intro b hb
      have hmem : b ∈ s.heap := (htrace.heap b).mp (by rw [hheap]; exact List.mem_append_left _ hb)
      have hblock : b ∈ m.blocks := by
        have := hsub.subset hb
        simp only [Allocs.blocks, List.mem_append, List.mem_cons] at this ⊢
        tauto
      exact (List.nodup_append.mp hm).2.2 b hblock b hmem rfl
    · intro hc
      have hft : m.ft = none := by tauto
      refine ⟨hroom, hcount, fun b => ?_⟩
      rw [hheap, hnil.mpr hft, List.nil_append]

end

/-! ## The stack cannot be had -/

def bootState : State := { sys := threadBootstrap 0, heap := [0], refcount := fun _ => 0 }

def noStack (ft : Option Nat) : Allocs where
  thread := some 1
  name := some 2
  ft := ft
  array := some 4
  room := true
  add0 := true
  add1 := true
  add2 := true
  storage := 5
  stack := none
  containers := ⟨true, true, true, true, true⟩

theorem bootState_ok : bootState.Ok { cur := some 0, run := [], sleepers := [], zombies := [] } where
  sys := ThreadSys.Ok.bootstrap 0
  cwd := by
    intro cur v hcur hv
    simp only [bootState, threadBootstrap, Option.bind_some, Function.update_self, Option.some.injEq] at hcur
    subst hcur
    cases hv

theorem failed_fork_no_trace_table : ∃ s', threadFork bootState (noStack none) = .ok (some .enomem, s') ∧
    NoTrace bootState s' := by
  have hf : threadFork bootState (noStack none) = .ok (some .enomem, _) := rfl
  have hfresh : ((noStack none).blocks ++ bootState.heap).Nodup := by decide
  exact ⟨_, hf, (failed_fork_no_trace_iff bootState_ok hfresh hf).mpr (Or.inr (Or.inr rfl))⟩

theorem failed_fork_leaks : ∃ s', threadFork bootState (noStack (some 3)) = .ok (some .enomem, s') ∧
    s'.heap = [5, 4, 3, 0] ∧ ¬ NoTrace bootState s' := by
  refine ⟨{ bootState with heap := [5, 4, 3, 0] }, rfl, rfl, fun htrace => ?_⟩
  exact absurd ((htrace.heap 3).mp (by decide)) (by decide)

end Os161.Fork
