import Os161.ForkSound

/-!
# Runs of the system

`step_ok` puts the operations together: each keeps the invariant of the whole
system, and the bytes each page should hold follow `track`, a memory with one
array of bytes for each page.
-/

namespace Os161

open Linked Outcome

/-! ## Start-up -/

def Ghost.start (b : Bool) : Ghost where
  live _ := False
  view := if b then some fun _ => none else none
  abs _ := none
  img _ _ := 0
  vaddr _ := 0
  dirty _ := false

theorem swapBootstrap_chain (w : Swap) {sl : List Nat} (h : sl = List.range swapPages) :
    Chain (swapBootstrap w).next (swapBootstrap w).freePages sl := by
  rw [h, List.range_eq_range']
  refine chain_range' 0 (swapPages - 1) (fun i hi => ?_) ?_
  · rw [Nat.zero_add]
    exact if_pos hi
  · simp [swapBootstrap]

theorem tlbBootstrap_empty (nodeId : Nat → Nat) (nodeNext : Nat → Option Nat) (k : Nat) :
    ((tlbBootstrap nodeId nodeNext).entries k).valid = false ∧
    userTop ≤ ((tlbBootstrap nodeId nodeNext).entries k).vpage := by
  refine ⟨rfl, ?_⟩
  simp only [tlbBootstrap, tlbInitFreeList, tlbReset, userTop, mipsKseg0]
  omega

theorem boot_good (b : Bool) (m : Boot) :
    Good (Ghost.start b) (fun _ => .free) (List.range' m.lowest (m.size - m.lowest)).reverse (boot m).vm := by
  have dead : ∀ p, ¬ (Ghost.start b).live p := fun _ h => h
  -- the list of slots is a variable, which nothing tries to evaluate
  obtain ⟨sl, hsl⟩ : ∃ sl, sl = List.range swapPages := ⟨_, rfl⟩
  have hmem : ∀ n, n ∈ sl ↔ n < swapPages := fun n => by rw [hsl, List.mem_range]
  refine ⟨⟨sl, cmBootstrap_ok m.core m.room m.ram, ⟨?_, fun p hp => absurd hp (dead p),
    fun p hp => absurd hp (dead p)⟩, ?_⟩, fun v _ => ?_, ⟨fun p _ _ hp => absurd hp (dead p),
    fun p _ _ hp => absurd hp (dead p), fun p _ hp => absurd hp (dead p)⟩, fun p hp => absurd hp (dead p)⟩
  · rintro f p - e
    cases e
  · exact ⟨swapBootstrap_chain m.swap hsl, hsl ▸ List.nodup_range, fun n => (hmem n).mp,
      fun n hn => by simp only [boot, swapBootstrap, hn, if_true], fun p hp => absurd hp (dead p),
      fun p _ _ hp => absurd hp (dead p), fun n hn => Or.inl ((hmem n).mpr hn)⟩
  · cases b with
    | false => contradiction
    | true =>
      obtain rfl : (fun _ => none) = v := Option.some.inj ‹_›
      exact TlbOk.empty (fun k _ => tlbBootstrap_empty m.nodeId m.nodeNext k) nofun

theorem boot_ok (b : Bool) (m : Boot) : SysOk b (Ghost.start b) (fun _ => .free) (boot m) where
  idle :=
    { good := ⟨_, boot_good b m⟩
      kern := fun f hf => by
        have : m.lowest ≤ f ∧ f < m.size := hf
        simp [Owner.Fits, boot, cmBootstrap, this]
      calm := nofun
      runs := ⟨nofun, nofun, nofun, List.Pairwise.nil⟩ }
  spaces := ⟨nofun, nofun, nofun, by rintro _ _ _ _ _ ⟨_, _, h, -⟩; cases h⟩
  tracks := ⟨fun p => ⟨nofun, by rintro ⟨_, _, h, -⟩; cases h⟩, nofun⟩
  view := rfl
  cur := nofun
  last := nofun
  never _ := rfl

/-! ## What callers guarantee -/

/-- Spaces and kernel runs exist when they are used, new spaces and page
tables get memory of their own, faults other than those for write permission
come from addresses that miss in the TLB, and programs store where the TLB
lets them. -/
def Op.Callable (s : Sys) : Op → Prop
  | .create a _ _ phdrs blocks stack => s.spaces a = none ∧ (stack :: blocks).Nodup ∧
    (loads phdrs).length ≤ blocks.length ∧ ∀ b ∈ stack :: blocks, s.FreshBlock b
  | .activate a => s.spaces a ≠ none
  | .fault faulttype addr _ => faulttype ≠ .readonly → TlbMiss s.vm.tlb (addr &&& pageFrame)
  | .store addr _ => s.cur ≠ none ∧ ∃ e, tlbLookup s.vm.tlb (addr &&& pageFrame) = some e ∧ e.dirty = true
  | .kalloc npages => 1 ≤ npages
  | .kfree frame => ∃ n, (frame, n) ∈ s.granted
  | .kstore frame _ _ => ∃ r ∈ s.granted, frame ∈ List.range' r.1 r.2
  | .copy child args => s.spaces child = none ∧ s.cur ≠ none ∧ args.Ok s
  | .destroy a => s.spaces a ≠ none

/-- A load that fails finds nothing in the memory of the last segment that
looks like a page table in use. -/
def Op.FailsClean : Op → Prop
  | .create _ last _ phdrs _ _ => Unloadable phdrs → last.active = 0 ∨ last.pt = none
  | _ => True

def Op.Allowed (s : Sys) (op : Op) : Prop := op.Callable s ∧ op.FailsClean

/-- The space that is activated is not at the address of the last one if that
has been destroyed. -/
def Op.Flushes (s : Sys) : Op → Prop
  | .activate a => ¬ (s.lastAddrspace = some a ∧ s.lastGone = true)
  | _ => True

instance (s : Sys) (op : Op) : Decidable (op.Flushes s) :=
  match op with
  | .activate a => inferInstanceAs (Decidable ¬ (s.lastAddrspace = some a ∧ s.lastGone = true))
  | .create .. | .fault .. | .store .. | .kalloc _ | .kfree _ | .kstore .. | .copy .. | .destroy _ =>
    inferInstanceAs (Decidable True)

def Op.LoadsWell (s : Sys) : Op → Prop
  | .fault _ addr resid => ∀ as q w, s.cur = some as → as.view (addr &&& pageFrame) = some (q, w) →
    (s.vm.pds q).pfn = -1 → (s.vm.pds q).sfn = -1 → LoadGood as (fileData s.vnodes as) (addr &&& pageFrame) resid
  | .copy _ args => ∀ old, s.cur = some old → LoadsGood old (fileData s.vnodes old) args
  | _ => True

def Op.IsCopy : Op → Prop
  | .copy _ _ => True
  | _ => False

instance (op : Op) : Decidable op.IsCopy :=
  match op with
  | .copy .. => inferInstanceAs (Decidable True)
  | .create .. | .activate _ | .fault .. | .store .. | .kalloc _ | .kfree _ | .kstore .. | .destroy _ =>
    inferInstanceAs (Decidable False)

/-! ## One step -/

def sourceOf (old : AddrSpace) (args : CopyArgs) (p : PdPtr) : Option PdPtr :=
  ((copyPairs old args (List.range asNumSeg)).find? fun x => x.2 == p).map Prod.fst

/-- What each page should hold: a new page what its file says, a page of a
copy what the original holds, the page at an address stored to the byte. `t`
says whether new pages are tracked. -/
def track (t : Bool) (s s' : Sys) (op : Op) (abs : PdPtr → Option Page) : PdPtr → Option Page :=
  match op with
  | .create a _ _ _ _ _ =>
    match s'.spaces a with
    | none => abs
    | some as => fun q =>
      if q ∈ as.pages then (if t then some (as.image (fileData s'.vnodes as) q) else none) else abs q
  | .store addr byte =>
    match s.cur with
    | none => abs
    | some as => as.storeAt abs addr byte
  | .copy _ args =>
    match s.cur with
    | none => abs
    | some old => fun p =>
      match sourceOf old args p with
      | none => abs p
      | some q => copied old abs (s.vm.pds q).dirty q (s.vm.pds q).vaddr
  | _ => abs

def Op.Fails (s : Sys) (op : Op) (c : Crash) : Prop :=
  match op with
  | .copy _ args => ∀ old, s.cur = some old →
    NoSlotLeft (fun r => s.Live r ∨ r ∈ (childSpace old args).pages) c
  | _ => Fair s.Live c

variable {b t : Bool} {G G' : Ghost} {own : Nat → Owner} {s : Sys} {old : AddrSpace} {args : CopyArgs} {op : Op}

theorem copyPairs_inj {q q' p : PdPtr} (hs : SpaceOk old) (hargs : args.Ok s)
    (h₁ : (q, p) ∈ copyPairs old args (List.range asNumSeg)) (h₂ : (q', p) ∈ copyPairs old args (List.range asNumSeg)) :
    q = q' := by
  obtain ⟨i, -, hi, rfl⟩ := (mem_copyPairs hs fun i => List.mem_range.mp).mp h₁
  obtain ⟨j, -, hj, e⟩ := (mem_copyPairs hs fun i => List.mem_range.mp).mp h₂
  obtain ⟨hb, hidx⟩ := PdPtr.mk.inj e
  obtain rfl := hargs.inj i hi.lt j hj.lt hb
  obtain ⟨pt, hpt, hqb, -⟩ := hi.table
  obtain ⟨pt', hpt', hqb', -⟩ := hj.table
  obtain rfl := Option.some.inj (hpt.symm.trans hpt')
  cases q; cases q'
  simp_all

theorem sourceOf_some {q p : PdPtr} (hs : SpaceOk old) (hargs : args.Ok s) :
    sourceOf old args p = some q ↔ (q, p) ∈ copyPairs old args (List.range asNumSeg) := by
  unfold sourceOf
  rw [Option.map_eq_some_iff]
  constructor
  · rintro ⟨⟨q', p'⟩, hf, rfl⟩
    obtain rfl : p' = p := by simpa using List.find?_some hf
    exact List.mem_of_find?_eq_some hf
  · intro hm
    cases hf : (copyPairs old args (List.range asNumSeg)).find? fun x => x.2 == p with
    | none => exact absurd (List.find?_eq_none.mp hf _ hm) (by simp)
    | some x =>
      obtain ⟨q', p'⟩ := x
      obtain rfl : p' = p := by simpa using List.find?_some hf
      exact ⟨_, rfl, copyPairs_inj hs hargs (List.mem_of_find?_eq_some hf) hm⟩

theorem asDestroy_spaces {s' : Sys} {a : Nat} {as : AddrSpace} (he : asDestroy s a as = .ok s') :
    s'.spaces = Function.update s.spaces a none := by
  obtain ⟨vm, -, he⟩ := bind_eq_ok.mp he
  dsimp only at he
  split at he
  · rw [← Except.ok.inj he]
  · split at he
    · cases he
    · rw [← Except.ok.inj he]

theorem asCopy_spaces {s' : Sys} {a : Nat} {new : AddrSpace} {runs : List (Nat × Nat)}
    (he : asCopy s a old args = .ok (new, runs, s')) : s'.spaces = s.spaces := by
  obtain ⟨⟨rs, vm⟩, -, he⟩ := bind_eq_ok.mp he
  dsimp only at he
  split at he
  · cases he
  · obtain ⟨⟨new', rs', vm'⟩, -, he⟩ := bind_eq_ok.mp he
    obtain ⟨-, -, rfl⟩ : _ ∧ _ ∧ _ := by simpa using he
    rfl

theorem fails_iff {c : Crash} (h : ¬ op.IsCopy) : op.Fails s c ↔ Fair s.Live c := by
  cases op with
  | copy child args => exact absurd trivial h
  | _ => exact Iff.rfl

theorem fault_readonly (s : Sys) (addr resid : Nat) : step s (.fault .readonly addr resid) = .ok s := by
  simp only [step]
  cases s.cur <;> rfl

def Op.target : Op → Option Nat
  | .create a _ _ _ _ _ => some a
  | .copy child _ => some child
  | _ => none

theorem step_spaces {s' : Sys} {x : Nat} {as : AddrSpace} (he : step s op = .ok s') (hx : s'.spaces x = some as)
    (hne : op.target ≠ some x) : s.spaces x = some as := by
  cases op with
  | create a last vnode phdrs blocks stack =>
    obtain ⟨⟨e, as', pds⟩, -, he⟩ := bind_eq_ok.mp he
    have hxa : x ≠ a := fun e => hne (congrArg some e.symm)
    cases e with
    | some e =>
      have hsp := asDestroy_spaces he
      rw [hsp, Function.update_of_ne hxa] at hx
      exact (Function.update_of_ne hxa ..).symm.trans hx
    | none =>
      obtain rfl := Except.ok.inj he
      dsimp only at hx
      rwa [Function.update_of_ne hxa] at hx
  | activate a => rwa [← Except.ok.inj he] at hx
  | fault ft addr resid =>
    obtain ⟨⟨r, vm⟩, -, he⟩ := bind_eq_ok.mp he
    rwa [← Except.ok.inj he] at hx
  | store addr byte =>
    simp only [step] at he
    split at he
    · split at he <;> rwa [← Except.ok.inj he] at hx
    · rwa [← Except.ok.inj he] at hx
  | kalloc n =>
    obtain ⟨⟨addr, vm⟩, -, he⟩ := bind_eq_ok.mp he
    rwa [← Except.ok.inj he] at hx
  | kfree f =>
    simp only [step] at he
    obtain ⟨vm, -, he⟩ := bind_eq_ok.mp he
    rwa [← Except.ok.inj he] at hx
  | kstore f off byte => rwa [← Except.ok.inj he] at hx
  | copy child args =>
    simp only [step] at he
    split at he
    · obtain ⟨⟨new, runs, s₁⟩, hcopy, he⟩ := bind_eq_ok.mp he
      have hs₁ : s₁.spaces = s.spaces := asCopy_spaces hcopy
      obtain rfl := Except.ok.inj he
      dsimp only at hx
      rwa [Function.update_of_ne fun e => hne (congrArg some e.symm), hs₁] at hx
    · rwa [← Except.ok.inj he] at hx
  | destroy a =>
    simp only [step] at he
    split at he
    · rwa [← Except.ok.inj he] at hx
    · rw [asDestroy_spaces he, Function.update_apply] at hx
      split at hx
      · cases hx
      · exact hx

theorem step_ok (t : Bool) (h : SysOk b G own s) (hop : op.Allowed s) (hfl : b = true → op.Flushes s)
    (hload : (∃ r, G.abs r ≠ none) → op.LoadsWell s) (hb : b = false → ∀ r, G.abs r = none) :
    Post (step s op) (fun s' => ∃ G' own', SysOk b G' own' s' ∧ G'.abs = track t s s' op G.abs) (op.Fails s) := by
  obtain ⟨hop, hclean⟩ := hop
  cases op with
  | create a last vnode phdrs blocks stack =>
    obtain ⟨hfree, hnd, hlen, hfresh⟩ := hop
    obtain ⟨s', G', he, h', habs⟩ := create_ok t last vnode h hfree hnd hlen hfresh hclean
    rw [he]
    refine ⟨G', own, h', funext fun q => ?_⟩
    rw [habs q]
    simp only [track]
    cases s'.spaces a <;> rfl
  | activate a =>
    obtain ⟨as, ha⟩ := Option.ne_none_iff_exists'.mp hop
    refine ⟨_, own, activate_ok h ha fun hb hl => ?_, rfl⟩
    have := hfl hb
    cases hg : s.lastGone with
    | false => rfl
    | true => exact absurd ⟨hl, hg⟩ this
  | fault ft addr resid =>
    rcases eq_or_ne ft .readonly with rfl | hft
    · rw [fault_readonly]
      exact ⟨G, own, h, rfl⟩
    · refine (fault_ok h (fun _ => hop hft) fun as hc => ?_).mono
        (fun s' hs' => hs'.elim fun own' h' => ⟨G, own', h', rfl⟩)
        fun c => (fails_iff id).mpr
      obtain ⟨a, -, ha⟩ := Sys.cur_some hc
      exact h.loadSafe ha (and_pageFrame_mod addr) fun q w hq habs => hload ⟨q, habs⟩ as q w hc hq
  | store addr byte =>
    obtain ⟨hcur, e, he, hd⟩ := hop
    obtain ⟨as, hc⟩ := Option.ne_none_iff_exists'.mp hcur
    obtain ⟨G', h', habs⟩ := store_ok byte h hc he hd hb
    simp only [step, he, hd, if_true]
    refine ⟨G', own, h', ?_⟩
    simp only [track, hc]
    exact habs
  | kalloc n =>
    have hn : 1 ≤ n := hop
    exact (kalloc_ok h hn).mono (fun s' hs' => hs'.elim fun own' h' => ⟨G, own', h', rfl⟩) fun c => (fails_iff id).mpr
  | kfree f =>
    generalize hr : step s (.kfree f) = r
    obtain ⟨n, hf⟩ := hop
    obtain ⟨s', own', he, h'⟩ := kfree_ok h hf
    obtain rfl := hr.symm.trans he
    exact ⟨G, own', h', rfl⟩
  | kstore f off byte =>
    obtain ⟨r, hr, hf⟩ := hop
    exact ⟨G, own, kstore_ok h hr hf, rfl⟩
  | copy child args =>
    obtain ⟨hchild, hcur, hargs⟩ := hop
    obtain ⟨old, hc⟩ := Option.ne_none_iff_exists'.mp hcur
    obtain ⟨a, -, ha⟩ := Sys.cur_some hc
    refine (copy_ok h hc hargs hb (fun hr => hload hr old hc) hchild).mono ?_ fun c hf old' hc' => ?_
    · rintro s' ⟨-, -, G', own', h', hforked⟩
      refine ⟨G', own', h', funext fun p => ?_⟩
      simp only [track, hc]
      cases hp : sourceOf old args p with
      | none =>
        refine hforked.rest p fun q hm => ?_
        rw [(sourceOf_some (h.spaces.ok a old ha) hargs).mpr hm] at hp
        cases hp
      | some q =>
        have hm := (sourceOf_some (h.spaces.ok a old ha) hargs).mp hp
        obtain ⟨i, -, hi, -⟩ := (mem_copyPairs (h.spaces.ok a old ha) fun i => List.mem_range.mp).mp hm
        obtain ⟨fl, hg⟩ := h.idle.good
        obtain ⟨hva, hdi⟩ := hg.fixed q (h.page_live ha (mem_pages.mpr ⟨i, hi⟩))
        simp only [hva, hdi]
        exact (hforked.page q p hm).1
    · obtain rfl := Option.some.inj (hc.symm.trans hc')
      exact hf
  | destroy a =>
    obtain ⟨as, ha⟩ := Option.ne_none_iff_exists'.mp hop
    simp only [step, ha]
    refine (destroy_ok h ha).mono (fun s' hs' => hs') fun c hc => ?_
    exact (fails_iff id).mpr (Or.inr (Or.inr (Or.inr (Or.inr (Or.inr hc)))))

/-! ## Runs -/

variable {m : Boot} {s' : Sys}

theorem track_none {abs : PdPtr → Option Page} (h : ∀ r, abs r = none) (s s' : Sys) (op : Op) (r : PdPtr) :
    track false s s' op abs r = none := by
  cases op with
  | create a last vnode phdrs blocks stack =>
    simp only [track]
    cases s'.spaces a with
    | none => exact h r
    | some as =>
      simp only [Bool.false_eq_true, if_false]
      split
      · rfl
      · exact h r
  | store addr byte =>
    simp only [track]
    cases s.cur with
    | none => exact h r
    | some as =>
      simp only [AddrSpace.storeAt_none h]
      exact h r
  | copy child args =>
    simp only [track]
    cases s.cur with
    | none => exact h r
    | some old =>
      simp only
      cases sourceOf old args r with
      | none => exact h r
      | some q => exact copied_none h ..
  | _ => exact h r

theorem reach_ok (b : Bool) {P : Sys → Op → Prop} (hP : ∀ s op, P s op → op.Allowed s ∧ (b = true → op.Flushes s))
    (h : Reach step P (boot m) s) : ∃ G own, SysOk b G own s ∧ ∀ r, G.abs r = none := by
  refine h.invariant (I := fun s => ∃ G own, SysOk b G own s ∧ ∀ r, G.abs r = none) ⟨_, _, boot_ok b m, fun _ => rfl⟩ ?_
  rintro s op s' ⟨G, own, hok, habs⟩ hop he
  have hno : ¬ ∃ r, G.abs r ≠ none := fun ⟨r, hr⟩ => hr (habs r)
  obtain ⟨G', own', hok', habs'⟩ := (step_ok false hok (hP s op hop).1 (hP s op hop).2 (fun hr => absurd hr hno)
    fun _ => habs).ok_of he
  exact ⟨G', own', hok', fun r => by rw [habs']; exact track_none habs s s' op r⟩

def Runs (m : Boot) (s : Sys) : Prop := Reach step (fun s op => op.Allowed s) (boot m) s

theorem Runs.ok (h : Runs m s) : ∃ G own, SysOk false G own s ∧ ∀ r, G.abs r = none :=
  reach_ok false (fun _ _ hop => ⟨hop, nofun⟩) h

theorem Runs.fails {c : Crash} (h : Runs m s) (hop : op.Allowed s) (he : step s op = .error c) : op.Fails s c := by
  obtain ⟨G, own, hok, habs⟩ := h.ok
  exact (step_ok false hok hop nofun (fun ⟨r, hr⟩ => absurd (habs r) hr) fun _ => habs).error_of he

/-! ## Runs on given inputs -/

def after (s : Sys) (op : Op) : Sys :=
  match step s op with
  | .ok s' => s'
  | .error _ => s

theorem step_after (h : (step s op).toBool = true) : step s op = .ok (after s op) := by
  unfold after
  cases he : step s op with
  | ok s' => rfl
  | error c => rw [he] at h; cases h

def Sys.Only (s : Sys) (a : Nat) : Prop := ∀ x ≠ a, s.spaces x = none

def Op.plain (a : Nat) (s : Sys) : Op → Bool
  | .create _ last _ phdrs blocks stack => ((s.spaces a).isNone && decide (stack :: blocks).Nodup &&
    decide ((loads phdrs).length ≤ blocks.length)) && last.active == 0
  | .activate b => (s.spaces b).isSome
  | .fault faulttype addr _ => faulttype == .readonly || decide (TlbMiss s.vm.tlb (addr &&& pageFrame))
  | .store addr _ => s.cur.isSome && (tlbLookup s.vm.tlb (addr &&& pageFrame)).any fun e => e.dirty
  | .destroy b => (s.spaces b).isSome
  | _ => false

theorem plain_allowed {a : Nat} (hs : s.Only a) (h : op.plain a s = true) : op.Allowed s := by
  cases op with
  | create c last vnode phdrs blocks stack =>
    simp only [Op.plain, Bool.and_eq_true, decide_eq_true_eq, Option.isNone_iff_eq_none, beq_iff_eq] at h
    obtain ⟨h, hlast⟩ := h
    have hnone : ∀ x, s.spaces x = none := fun x => by
      by_cases hx : x = a
      · rw [hx, h.1.1]
      · exact hs x hx
    refine ⟨⟨hnone c, h.1.2, h.2, fun b _ x i hx => ?_⟩, fun _ => Or.inl hlast⟩
    obtain ⟨as, pt, hx, -⟩ := hx
    rw [hnone x] at hx
    cases hx
  | activate b => exact ⟨Option.ne_none_iff_isSome.mpr h, trivial⟩
  | fault faulttype addr resid =>
    simp only [Op.plain, Bool.or_eq_true, beq_iff_eq, decide_eq_true_eq] at h
    exact ⟨h.resolve_left, trivial⟩
  | store addr byte =>
    simp only [Op.plain, Bool.and_eq_true, Option.any_eq_true] at h
    exact ⟨⟨Option.ne_none_iff_isSome.mpr h.1, h.2⟩, trivial⟩
  | destroy b => exact ⟨Option.ne_none_iff_isSome.mpr h, trivial⟩
  | kalloc npages => cases h
  | kfree frame => cases h
  | kstore frame off byte => cases h
  | copy child args => cases h

theorem plain_only {a : Nat} {s' : Sys} (hs : s.Only a) (h : op.plain a s = true) (he : step s op = .ok s') :
    s'.Only (op.target.getD a) := by
  intro x hx
  cases hsp : s'.spaces x with
  | none => rfl
  | some as =>
    have hne : op.target ≠ some x := fun e => hx (by rw [e]; rfl)
    have hold := step_spaces he hsp hne
    -- the only space there can be is at `a`, and then nothing is created
    obtain rfl : x = a := by
      by_contra hxa
      rw [hs x hxa] at hold
      cases hold
    cases op with
    | create c last vnode phdrs blocks stack => simp [Op.plain, hold] at h
    | copy child args => cases h
    | _ => exact absurd rfl hx

def goesThrough (P : Sys → Op → Bool) : Nat → Sys → List Op → Bool
  | _, _, [] => true
  | a, s, op :: l => op.plain a s && P s op &&
    match step s op with
    | .ok s' => goesThrough P (op.target.getD a) s' l
    | .error _ => false

theorem goesThrough_cons {P : Sys → Op → Bool} {a : Nat} {l : List Op} (h : goesThrough P a s (op :: l) = true) :
    op.plain a s = true ∧ P s op = true ∧ step s op = .ok (after s op) ∧
      goesThrough P (op.target.getD a) (after s op) l = true := by
  simp only [goesThrough, Bool.and_eq_true] at h
  obtain ⟨⟨hp, hP⟩, h⟩ := h
  unfold after
  cases he : step s op with
  | ok s' => exact ⟨hp, hP, rfl, by rw [he] at h; exact h⟩
  | error c => rw [he] at h; cases h

theorem goesThrough_reach {P : Sys → Op → Bool} {a : Nat} {l : List Op} (hs : s.Only a)
    (h : goesThrough P a s l = true) : Reach step (fun s op => op.Allowed s ∧ P s op = true) s (l.foldl after s) ∧
      (l.foldl after s).Only (l.foldl (fun a op => op.target.getD a) a) := by
  induction l generalizing a s with
  | nil => exact ⟨.refl, hs⟩
  | cons op l ih =>
    obtain ⟨hp, hP, he, h⟩ := goesThrough_cons h
    obtain ⟨hr, honly⟩ := ih (plain_only hs hp he) h
    exact ⟨(Reach.refl.tail ⟨plain_allowed hs hp, hP⟩ he).trans hr, honly⟩

def tiny : Boot where
  size := 4
  lowest := 1
  core _ := { id := 0, kern := 0, pd := none, nextFree := none, prevFree := none, free := false }
  pds _ := { vaddr := 0, pfn := 0, sfn := 0, valid := false, dirty := false, use := false }
  mem _ _ := 1
  swap := { index := id, next := fun _ => none, freePages := none, data := fun _ _ => 0 }
  nodeId _ := 0
  nodeNext _ := none
  vnodes _ := { data := [], opencount := 0 }
  room := by decide
  ram := by decide

end Os161
