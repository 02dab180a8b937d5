import Os161.RunSound

/-!
# Every frame and every slot has one owner

In every state of a run each frame is on the free list, or the kernel's, or
has one page, and the free list is a doubly linked list. Each slot of the swap
file is on its free list or holds one page.
-/

namespace Os161

open Linked Outcome

variable {m : Boot} {s : Sys}

/-! ## Frames -/

inductive FrameState
  | free
  | kernel
  | user
  deriving DecidableEq, Repr

def FrameIs (v : Vm) (fl : List Nat) (f : Nat) : FrameState → Prop
  | .free => (v.cm.coreDetails f).free = true ∧ (v.cm.coreDetails f).kern = 0 ∧ fl.count f = 1
  | .kernel => 0 < (v.cm.coreDetails f).kern ∧ (v.cm.coreDetails f).free = false ∧ f ∉ fl
  | .user => (v.cm.coreDetails f).kern = 0 ∧ (v.cm.coreDetails f).free = false ∧ f ∉ fl ∧
    ∃ p, (v.cm.coreDetails f).pd = some p ∧ (v.pds p).pfn = f ∧ (v.pds p).valid = true ∧
      ∀ g, v.cm.InRange g → g ≠ f → (v.cm.coreDetails g).kern = 0 → (v.cm.coreDetails g).free = false →
        (v.cm.coreDetails g).pd ≠ some p

theorem FrameIs.unique {v : Vm} {fl : List Nat} {f : Nat} {k k' : FrameState} (h : FrameIs v fl f k)
    (h' : FrameIs v fl f k') : k' = k := by
  cases k <;> cases k' <;> simp only [FrameIs] at h h' <;> first | rfl | (exfalso; simp_all)

theorem Idle.frameIs {G : Ghost} {own : Nat → Owner} {fl : List Nat} {runs : List (Nat × Nat)} {v : Vm} {f : Nat}
    (h : Idle G own runs v) (hg : Good G own fl v) (hf : v.cm.InRange f) : ∃ k, FrameIs v fl f k := by
  obtain ⟨sl, hc⟩ := hg.core
  have hfree : own f ≠ .free → (v.cm.coreDetails f).free = false ∧ f ∉ fl := fun hne => by
    refine ⟨?_, hc.cm.not_mem hne⟩
    cases e : (v.cm.coreDetails f).free with
    | false => rfl
    | true => exact absurd ((hc.cm.flag f hf).mp e) hne
  have hkern := h.kern f hf
  cases e : own f with
  | free =>
    rw [e] at hkern
    exact ⟨.free, (hc.cm.flag f hf).mpr e, hkern, List.count_eq_one_of_mem hc.cm.links.nodup
      ((hc.cm.mem_fl f).mpr ⟨hf, e⟩)⟩
  | kernel =>
    rw [e] at hkern
    exact ⟨.kernel, hkern, hfree (by simp [e])⟩
  | user p =>
    rw [e] at hkern
    obtain ⟨hfr, hnot⟩ := hfree (by simp [e])
    obtain ⟨-, hpd, hpf, hval⟩ := hc.pg.user f p hf e
    refine ⟨.user, hkern, hfr, hnot, p, hpd, hpf, hval, fun g hg' hgf h0 hfr' hpd' => ?_⟩
    -- another frame with a page has another page
    rcases h.kern.free_or_user hg' h0 (h.noHalf g) with e' | ⟨r, e'⟩
    · rw [(hc.cm.flag g hg').mpr e'] at hfr'; cases hfr'
    · obtain rfl : r = p := Option.some.inj ((hc.pg.user g r hg' e').2.1.symm.trans hpd')
      exact hgf (hc.pg.inj hg' hf e' e)
  | busy => exact absurd e (h.calm f)

/-- The free list is well formed, every frame is in one of the three states,
and no operation but a copy meets a list that is not as it should be. -/
theorem frames_have_one_owner (h : Runs m s) :
    (∃ fl, DList (fun f => (s.vm.cm.coreDetails f).nextFree) (fun f => (s.vm.cm.coreDetails f).prevFree)
        s.vm.cm.freeFrameList s.vm.cm.lastFree fl ∧
      (∀ f ∈ fl, ∀ g ∈ fl, (s.vm.cm.coreDetails f).nextFree = some g ↔ (s.vm.cm.coreDetails g).prevFree = some f) ∧
      (s.vm.cm.freeFrameList = none ↔ fl = []) ∧ (s.vm.cm.lastFree = none ↔ fl = []) ∧
      (∀ f ∈ fl, s.vm.cm.InRange f) ∧ ∀ f, s.vm.cm.InRange f → ∃! k, FrameIs s.vm fl f k) ∧
    ∀ op c, op.Allowed s → ¬ op.IsCopy → step s op = .error c →
      c.why ≠ .freeFramesNotInFreeList ∧ c.why ≠ .assertionFailed .freeListNotEmpty ∧
        c.why ≠ .assertionFailed .onlyFrameIsTheOneRemoved ∧ c.why ≠ .nullPointer := by
  refine ⟨?_, fun op c hop hno he => ?_⟩
  · obtain ⟨G, own, hok, -⟩ := h.ok
    obtain ⟨fl, hg⟩ := hok.idle.good
    obtain ⟨sl, hc⟩ := hg.core
    refine ⟨fl, hc.cm.links, fun f hf g hg => hc.cm.links.next_iff_prev hf hg, hc.cm.links.fwd.none_iff, ?_,
      fun f hf => ((hc.cm.mem_fl f).mp hf).1, fun f hf => ?_⟩
    · rw [hc.cm.links.bwd.none_iff, List.reverse_eq_nil_iff]
    · obtain ⟨k, hk⟩ := hok.idle.frameIs hg hf
      exact ⟨k, hk, fun k' => hk.unique⟩
  · rcases (fails_iff hno).mp (h.fails hop he) with ⟨hw, -⟩ | hw | ⟨n, hw⟩ | hw | hw | hw <;> rw [hw] <;> simp

def twoPages : Sys :=
  after (after (after (after (boot tiny) (.create 0 emptySegment 0 [] [] 0)) (.activate 0))
    (.fault .write 0x7fff4000 0)) (.fault .write 0x7fff5000 0)

def sameBlock : Sys :=
  after (after (after (after twoPages (.destroy 0)) (.create 1 emptySegment 0 [] [] 0)) (.activate 1))
    (.fault .write 0x7fff4000 0)

theorem twoPages_reach :
    Reach step (fun s op => op.Allowed s ∧ decide (op.Flushes s) = true) (boot tiny) twoPages ∧ twoPages.Only 0 := by
  have h := goesThrough_reach (P := fun s op => decide (op.Flushes s)) (s := boot tiny) (a := 0)
    (l := [.create 0 emptySegment 0 [] [] 0, .activate 0, .fault .write 0x7fff4000 0, .fault .write 0x7fff5000 0])
    (fun _ _ => rfl) (by decide +kernel)
  simp only [List.foldl_cons, List.foldl_nil] at h
  exact h

theorem twoPages_runs : Runs tiny twoPages := twoPages_reach.1.weaken fun _ _ h => h.1

theorem sameBlock_runs : Runs tiny sameBlock := by
  have h := goesThrough_reach (P := fun _ _ => true) (s := twoPages) (a := 0)
    (l := [.destroy 0, .create 1 emptySegment 0 [] [] 0, .activate 1, .fault .write 0x7fff4000 0])
    twoPages_reach.2 (by decide +kernel)
  simp only [List.foldl_cons, List.foldl_nil] at h
  exact twoPages_runs.trans (h.1.weaken fun _ _ h => h.1)

theorem frames_have_one_owner_sameBlock : Runs tiny sameBlock ∧ ∃ fl,
    ∀ f, sameBlock.vm.cm.InRange f → ∃! k, FrameIs sameBlock.vm fl f k := by
  obtain ⟨fl, -, -, -, -, -, h⟩ := (frames_have_one_owner sameBlock_runs).1
  exact ⟨sameBlock_runs, fl, h⟩

theorem free_frame_keeps_pd : Runs tiny sameBlock ∧ sameBlock.vm.cm.InRange 2 ∧ sameBlock.vm.cm.InRange 3 ∧
    (sameBlock.vm.cm.coreDetails 2).kern = 0 ∧ (sameBlock.vm.cm.coreDetails 2).free = false ∧
    (sameBlock.vm.cm.coreDetails 2).pd = some { block := 0, idx := 0 } ∧
    (sameBlock.vm.pds { block := 0, idx := 0 }).pfn = 2 ∧ (sameBlock.vm.pds { block := 0, idx := 0 }).valid = true ∧
    (sameBlock.vm.cm.coreDetails 3).pd = some { block := 0, idx := 0 } := by
  refine ⟨sameBlock_runs, ?_⟩
  unfold Cm.InRange
  decide +kernel

/-! ## Slots -/

def Op.Builds (s : Sys) : Op → PdPtr → Prop
  | .copy _ args, p => ∃ old, s.cur = some old ∧ p ∈ (childSpace old args).pages
  | _, _ => False

theorem Op.Fails.swapFull {op : Op} {c : Crash} (h : op.Fails s c) (hop : op.Allowed s) (hw : c.why = .outOfSwapSpace) :
    SwapFull (fun p => s.Live p ∨ op.Builds s p) c.vm := by
  by_cases hcopy : op.IsCopy
  · cases op with
    | copy child args =>
      obtain ⟨old, hc⟩ := Option.ne_none_iff_exists'.mp hop.1.2.1
      exact (h old hc hw).mono fun p hp => hp.imp_right fun hm => ⟨old, hc, hm⟩
    | _ => exact absurd hcopy id
  · rcases (fails_iff hcopy).mp h with ⟨-, hs⟩ | h | ⟨n, h⟩ | h | h | h
    · exact hs.mono fun p => Or.inl
    all_goals rw [hw] at h; cases h

/-- Slots are free or hold one page of a live space, and the swap file is only
found full when every slot holds a page. -/
theorem swap_slots_conserved (h : Runs m s) :
    (∃ sl, Chain s.vm.swap.next s.vm.swap.freePages sl ∧ sl.Nodup ∧
      (∀ n ∈ sl, n < swapPages ∧ s.vm.swap.index n = n) ∧
      (∀ p, s.Live p → (s.vm.pds p).sfn = -1 ∨ ∃ n < swapPages, (s.vm.pds p).sfn = (n : Int)) ∧
      ∀ n < swapPages, (n ∈ sl ∧ ∀ p, s.Live p → (s.vm.pds p).sfn ≠ n) ∨
        (n ∉ sl ∧ ∃! p, s.Live p ∧ (s.vm.pds p).sfn = n)) ∧
    ∀ op c, op.Allowed s → step s op = .error c → c.why = .outOfSwapSpace →
      SwapFull (fun p => s.Live p ∨ op.Builds s p) c.vm := by
  refine ⟨?_, fun op c hop he hw => (h.fails hop he).swapFull hop hw⟩
  obtain ⟨G, own, hok, -⟩ := h.ok
  obtain ⟨fl, hg⟩ := hok.idle.good
  obtain ⟨sl, hc⟩ := hg.core
  have hl := hok.tracks.live
  -- a page that has a slot has one that is not on the list
  have hoff : ∀ p (n : Nat), s.Live p → (s.vm.pds p).sfn = n → n ∉ sl := by
    intro p n hp hn
    rcases hc.sw.sfn p ((hl p).mpr hp) with h | ⟨k, -, hk, hnot, -⟩
    · omega
    · obtain rfl : n = k := by omega
      exact hnot
  refine ⟨sl, hc.sw.chain, hc.sw.nodup, fun n hn => ⟨hc.sw.lt n hn, hc.sw.index n (hc.sw.lt n hn)⟩, fun p hp => ?_,
    fun n hn => ?_⟩
  · exact (hc.sw.sfn p ((hl p).mpr hp)).imp_right fun ⟨n, hn, e, _⟩ => ⟨n, hn, e⟩
  · rcases hc.sw.cover n hn with hm | ⟨p, hp, e⟩
    · exact Or.inl ⟨hm, fun p hp e => hoff p n hp e hm⟩
    · refine Or.inr ⟨hoff p n ((hl p).mp hp) e, p, ⟨(hl p).mp hp, e⟩, fun q ⟨hq, e'⟩ => ?_⟩
      exact hc.sw.inj q p n ((hl q).mpr hq) hp e' e

def fourPages : Sys := after (after twoPages (.fault .write 0x7fff6000 0)) (.fault .write 0x7fff7000 0)

theorem fourPages_runs : Runs tiny fourPages ∧ fourPages.Only 0 := by
  have h := goesThrough_reach (P := fun _ _ => true) (s := twoPages) (a := 0)
    (l := [.fault .write 0x7fff6000 0, .fault .write 0x7fff7000 0]) twoPages_reach.2 (by decide +kernel)
  simp only [List.foldl_cons, List.foldl_nil] at h
  exact ⟨twoPages_runs.trans (h.1.weaken fun _ _ h => h.1), h.2⟩

/-- A program with a header of an unknown type, whose space is made in memory
that looks like the stack of the one running. -/
def badProgram : Op :=
  .create 1 (stackSegment 0) 0 [{ pType := .other, pOffset := 0, pVaddr := 0, pFilesz := 0, pMemsz := 0, pFlags := 0 }]
    [] 1

def tornDown : Sys := after fourPages badProgram

theorem slot_in_use : ((fourPages.spaces 0).any fun as => as.pages.contains { block := 0, idx := 2 }) = true ∧
    (fourPages.vm.pds { block := 0, idx := 2 }).sfn = 0 ∧
    ((fourPages.spaces 0).all fun as => (List.range asNumSeg).all fun i =>
      (as.segments i).pt.all fun pt => pt.block != 1) = true ∧
    (step fourPages badProgram).toBool = true ∧
    ((tornDown.spaces 0).any fun as => as.pages.contains { block := 0, idx := 2 }) = true ∧
    (tornDown.vm.pds { block := 0, idx := 2 }).sfn = 0 ∧ tornDown.vm.swap.freePages = some 0 := by decide +kernel

theorem live_of_contains {p : PdPtr} {a : Nat} (h : ((s.spaces a).any fun as => as.pages.contains p) = true) :
    s.Live p := by
  obtain ⟨as, ha, hp⟩ := (Option.any_eq_true ..).mp h
  exact ⟨a, as, ha, List.contains_iff_mem.mp hp⟩

theorem swap_slots_conserved_fourPages : Runs tiny fourPages ∧
    (∃ sl, Chain fourPages.vm.swap.next fourPages.vm.swap.freePages sl ∧ sl.Nodup ∧ 0 ∉ sl) ∧
    ∃! p, fourPages.Live p ∧ (fourPages.vm.pds p).sfn = 0 := by
  obtain ⟨sl, hc, hnd, -, -, hslot⟩ := (swap_slots_conserved fourPages_runs.1).1
  rcases hslot 0 (by decide) with ⟨-, hno⟩ | ⟨hnot, hone⟩
  · exact absurd slot_in_use.2.1 (hno _ (live_of_contains slot_in_use.1))
  · exact ⟨fourPages_runs.1, ⟨sl, hc, hnd, hnot⟩, hone⟩

theorem badProgram_callable : badProgram.Callable fourPages := by
  refine ⟨fourPages_runs.2 1 (by decide), by decide, by decide, fun b hb a i hx => ?_⟩
  obtain rfl := List.mem_singleton.mp hb
  obtain ⟨as, pt, ha, ht, hpt⟩ := hx
  obtain rfl : a = 0 := by
    by_contra hne
    rw [fourPages_runs.2 a hne] at ha
    cases ha
  obtain ⟨-, -, hall, -⟩ := slot_in_use
  rw [ha] at hall
  have := List.all_eq_true.mp hall i (List.mem_range.mpr ht.lt)
  rw [ht.eq] at this
  simp [hpt] at this

theorem failing_load_frees_slot : Reach step (fun s op => op.Callable s) (boot tiny) tornDown ∧
    tornDown.Live { block := 0, idx := 2 } ∧ (tornDown.vm.pds { block := 0, idx := 2 }).sfn = 0 ∧
    tornDown.vm.swap.freePages = some 0 := by
  obtain ⟨-, -, -, hstep, hlive, hslot⟩ := slot_in_use
  have hreach := (fourPages_runs.1.weaken fun _ _ h => h.1).tail badProgram_callable (step_after hstep)
  exact ⟨hreach, live_of_contains hlive, hslot⟩

end Os161
