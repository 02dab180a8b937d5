import Os161.Lib.Links
import Os161.Lib.Outcome
import Os161.Tlb

/-!
# Soundness of the TLB slot allocator

A slot is free if its node in `tlbfreenodes` is on the list, and the slots
off the list are those with a user translation. This lasts as long as no
entry is added from the last node, whose `id` is not its position.
-/

namespace Os161

open Linked Outcome

variable {t t' : Tlb} {free : List Nat} {v k : Nat}

inductive TlbOp
  | bootstrap (nodeId : Nat → Nat) (nodeNext : Nat → Option Nat)
  | addEntry (v p : Nat) (dirty : Bool)
  | invalidateVaddr (v : Nat)
  | contextSwitch

def tlbStep (t : Tlb) : TlbOp → Except Panic Tlb
  | .bootstrap nodeId nodeNext => .ok (tlbInitFreeList { t with nodeId, nodeNext })
  | .addEntry v p dirty => tlbAddEntry t v p dirty
  | .invalidateVaddr v => tlbInvalidateVaddr t v
  | .contextSwitch => .ok (tlbContextSwitch t)

def TlbOp.writes (t : Tlb) : TlbOp → List Nat
  | .bootstrap _ _ => []
  | .addEntry _ _ _ =>
    match tlbGetFreeEntry t with
    | (some entry, _) => [entry]
    | (none, t) => [(tlbGetRrVictim t).1]
  | .invalidateVaddr v => (tlbProbe t v).toList
  | .contextSwitch => List.range numTlb

def TlbOp.nodes (t : Tlb) : TlbOp → List Nat
  | .bootstrap _ _ => List.range numTlb
  | .addEntry _ _ _ =>
    match t.tlbnextfree with
    | none => []
    | some node => [node, t.nodeId node]
  | .invalidateVaddr v => (tlbProbe t v).toList
  | .contextSwitch => List.range numTlb

def Tlb.Holds (t : Tlb) (k : Nat) : Prop := (t.entries k).valid = true

def TlbOp.Allowed (t : Tlb) : TlbOp → Prop
  | .addEntry v _ _ => ∀ k < numTlb, (t.entries k).vpage ≠ v
  | _ => True

/-- The list is not at its last node when an entry is added. Beyond that the
pages are user pages, and the list is not made anew under live entries. -/
def TlbOp.Fits (t : Tlb) : TlbOp → Prop
  | .bootstrap _ _ => ∀ k < numTlb, ¬ t.Holds k
  | .addEntry v _ _ => v < userTop ∧ t.tlbnextfree ≠ some (numTlb - 1)
  | .invalidateVaddr v => v < userTop ∨ ∀ k < numTlb, (t.entries k).vpage ≠ v
  | .contextSwitch => True

/-- All accesses are in bounds, and an added entry takes the slot of a live
one only if every slot is live. -/
structure TlbOp.Sound (t : Tlb) (op : TlbOp) : Prop where
  writes : ∀ i ∈ op.writes t, i < numTlb
  nodes : ∀ i ∈ op.nodes t, i < numTlb
  keeps : ∀ v p d, op = .addEntry v p d → ∀ i ∈ op.writes t, t.Holds (i % numTlb) → ∀ k < numTlb, t.Holds k

/-! ## The invariant -/

def Tlb.Blank (t : Tlb) (k : Nat) : Prop :=
  (t.entries k).valid = false ∧ ((t.entries k).vpage = (tlbInvalid k).vpage ∨ (t.entries k).vpage = (tlbReset k).vpage)

theorem Tlb.Blank.not_holds (h : t.Blank k) : ¬ t.Holds k := by
  unfold Tlb.Holds
  rw [h.1]
  exact Bool.false_ne_true

theorem Tlb.Blank.userTop_le (h : t.Blank k) : userTop ≤ (t.entries k).vpage := by
  have ht : userTop = 0x80000000 := rfl
  rcases h.2 with e | e <;> rw [e]
  · simp only [tlbInvalid]; omega
  · simp only [tlbReset]; omega

theorem Tlb.Blank.inj {i j : Nat} (hi : t.Blank i) (hj : t.Blank j) (hi' : i < numTlb) (hj' : j < numTlb)
    (h : (t.entries i).vpage = (t.entries j).vpage) : i = j := by
  have hn : numTlb = 64 := rfl
  rcases hi.2 with e | e <;> rcases hj.2 with e' | e' <;> rw [e, e'] at h <;>
    simp only [tlbInvalid, tlbReset] at h <;> omega

structure SlotsOk (t : Tlb) (free : List Nat) : Prop where
  chain : Chain t.nodeNext t.tlbnextfree free
  nodup : free.Nodup
  lt : ∀ k ∈ free, k < numTlb
  last : numTlb - 1 ∈ free
  id : ∀ k < numTlb - 1, t.nodeId k = k
  lastId : t.nodeId (numTlb - 1) = numTlb
  blank : ∀ k ∈ free, t.Blank k
  live : ∀ k < numTlb, k ∉ free → t.Holds k ∧ (t.entries k).vpage < userTop
  inj : ∀ i < numTlb, ∀ j < numTlb, i ∉ free → j ∉ free → (t.entries i).vpage = (t.entries j).vpage → i = j

theorem SlotsOk.mem_iff (h : SlotsOk t free) : k ∈ free ↔ k < numTlb ∧ ¬ t.Holds k := by
  refine ⟨fun hk => ⟨h.lt k hk, (h.blank k hk).not_holds⟩, fun ⟨hk, hn⟩ => ?_⟩
  by_contra hnot
  exact hn (h.live k hk hnot).1

theorem SlotsOk.apart (h : SlotsOk t free) {i j : Nat} (hi : i < numTlb) (hj : j < numTlb)
    (e : (t.entries i).vpage = (t.entries j).vpage) : i = j := by
  by_cases hif : i ∈ free <;> by_cases hjf : j ∈ free
  · exact (h.blank i hif).inj (h.blank j hjf) hi hj e
  · have := (h.blank i hif).userTop_le
    have := (h.live j hj hjf).2
    omega
  · have := (h.blank j hjf).userTop_le
    have := (h.live i hi hif).2
    omega
  · exact h.inj i hi j hj hif hjf e

theorem SlotsOk.not_mem_of_user (h : SlotsOk t free) (hk : (t.entries k).vpage = v) (hv : v < userTop) : k ∉ free := by
  intro hf
  have := (h.blank k hf).userTop_le
  omega

theorem tlbInitFreeList_ok (hb : ∀ k < numTlb, t.Blank k) : SlotsOk (tlbInitFreeList t) (List.range numTlb) where
  chain := by
    rw [List.range_eq_range']
    refine chain_range' 0 (numTlb - 1) (fun i hi => ?_) ?_
    · simp [tlbInitFreeList, hi]
    · simp [tlbInitFreeList]
  nodup := List.nodup_range
  lt k hk := List.mem_range.mp hk
  last := List.mem_range.mpr (by decide)
  id k hk := by simp [tlbInitFreeList, hk]
  lastId := by simp [tlbInitFreeList]
  blank k hk := hb k (List.mem_range.mp hk)
  live k hk hn := absurd (List.mem_range.mpr hk) hn
  inj i hi _ _ hn := absurd (List.mem_range.mpr hi) hn

/-! ## One call -/

theorem tlbWrite_self (e : TlbEntry) (hk : k < numTlb) : (tlbWrite t e k).entries k = e := by
  simp only [tlbWrite, Nat.mod_eq_of_lt hk]
  exact Function.update_self ..

theorem tlbWrite_of_ne (e : TlbEntry) (hk : k < numTlb) {i : Nat} (hi : i ≠ k) :
    (tlbWrite t e k).entries i = t.entries i := by
  simp only [tlbWrite, Nat.mod_eq_of_lt hk]
  exact Function.update_of_ne hi ..

theorem SlotsOk.head (h : SlotsOk t free) (hne : t.tlbnextfree ≠ some (numTlb - 1)) :
    ∃ node rest, free = node :: rest ∧ t.tlbnextfree = some node ∧ node < numTlb ∧ t.nodeId node = node ∧
      numTlb - 1 ∈ rest := by
  have hn : numTlb = 64 := rfl
  cases free with
  | nil => cases h.last
  | cons node rest =>
    have hhead : t.tlbnextfree = some node := h.chain.1
    have hlt := h.lt node (List.mem_cons_self ..)
    have hlast : node ≠ numTlb - 1 := fun e => hne (e ▸ hhead)
    refine ⟨node, rest, rfl, hhead, hlt, h.id node (by omega), ?_⟩
    exact (List.mem_cons.mp h.last).resolve_left hlast.symm

theorem SlotsOk.addEntry {p : Nat} {dirty : Bool} (h : SlotsOk t free) (hv : v < userTop)
    (hnew : ∀ k < numTlb, (t.entries k).vpage ≠ v) (hne : t.tlbnextfree ≠ some (numTlb - 1))
    (he : tlbAddEntry t v p dirty = .ok t') : ∃ free', SlotsOk t' free' := by
  obtain ⟨node, rest, rfl, hhead, hlt, hid, hlast⟩ := h.head hne
  obtain ⟨hnot, hnd⟩ := List.nodup_cons.mp h.nodup
  simp only [tlbAddEntry, tlbGetFreeEntry, hhead, hid] at he
  split at he
  · cases he
  split at he
  · cases he
  obtain rfl := Except.ok.inj he
  refine ⟨rest, ?_, hnd, fun k hk => h.lt k (List.mem_cons_of_mem _ hk), hlast, h.id, h.lastId, fun k hk => ?_,
    fun k hk hn => ?_, fun i hi j hj hni hnj e => ?_⟩
  · exact h.chain.2.congr fun x hx => Function.update_of_ne (ne_of_mem_of_not_mem hx hnot) ..
  · unfold Tlb.Blank
    rw [tlbWrite_of_ne _ hlt (ne_of_mem_of_not_mem hk hnot)]
    exact h.blank k (List.mem_cons_of_mem _ hk)
  · unfold Tlb.Holds
    rcases eq_or_ne k node with rfl | hne
    · rw [tlbWrite_self _ hlt]
      exact ⟨rfl, hv⟩
    · rw [tlbWrite_of_ne _ hlt hne]
      exact h.live k hk (by simp [hne, hn])
  · rcases eq_or_ne i node with hin | hine <;> rcases eq_or_ne j node with hjn | hjne
    · exact hin.trans hjn.symm
    · rw [hin, tlbWrite_self _ hlt, tlbWrite_of_ne _ hlt hjne] at e
      exact absurd e.symm (hnew j hj)
    · rw [hjn, tlbWrite_self _ hlt, tlbWrite_of_ne _ hlt hine] at e
      exact absurd e (hnew i hi)
    · rw [tlbWrite_of_ne _ hlt hine, tlbWrite_of_ne _ hlt hjne] at e
      exact h.apart hi hj e

theorem SlotsOk.invalidateVaddr (h : SlotsOk t free) (hv : v < userTop ∨ ∀ k < numTlb, (t.entries k).vpage ≠ v)
    (he : tlbInvalidateVaddr t v = .ok t') : ∃ free', SlotsOk t' free' := by
  unfold tlbInvalidateVaddr at he
  split at he
  · cases he
  split at he
  · obtain rfl := Except.ok.inj he
    exact ⟨free, h⟩
  rename_i k hp
  obtain ⟨hk, hkv⟩ := tlbProbe_some hp
  have hnot : k ∉ free := h.not_mem_of_user hkv (hv.resolve_right fun hno => hno k hk hkv)
  obtain rfl := Except.ok.inj he
  refine ⟨k :: free, ⟨rfl, ?_⟩, List.nodup_cons.mpr ⟨hnot, h.nodup⟩, ?_, List.mem_cons_of_mem _ h.last,
    h.id, h.lastId, ?_, fun i hi hn => ?_, fun i hi j hj hni hnj e => ?_⟩
  · dsimp only
    rw [Function.update_self]
    exact h.chain.congr fun x hx => Function.update_of_ne (ne_of_mem_of_not_mem hx hnot) ..
  · exact List.forall_mem_cons.mpr ⟨hk, h.lt⟩
  · refine List.forall_mem_cons.mpr ⟨?_, fun i hi => ?_⟩
    · exact ⟨congrArg TlbEntry.valid (tlbWrite_self _ hk), Or.inl (congrArg TlbEntry.vpage (tlbWrite_self _ hk))⟩
    · unfold Tlb.Blank
      rw [tlbWrite_of_ne _ hk (ne_of_mem_of_not_mem hi hnot)]
      exact h.blank i hi
  · obtain ⟨hne, hn⟩ := not_or.mp (fun hor => hn (List.mem_cons.mpr hor))
    unfold Tlb.Holds
    rw [tlbWrite_of_ne _ hk hne]
    exact h.live i hi hn
  · obtain ⟨hine, -⟩ := not_or.mp (fun hor => hni (List.mem_cons.mpr hor))
    obtain ⟨hjne, -⟩ := not_or.mp (fun hor => hnj (List.mem_cons.mpr hor))
    dsimp only at e
    rw [tlbWrite_of_ne _ hk hine, tlbWrite_of_ne _ hk hjne] at e
    exact h.apart hi hj e

theorem foldl_tlbWrite_eq (l : List Nat) (t : Tlb) :
    l.foldl (fun t i => tlbWrite t (tlbInvalid i) i) t =
      { t with entries := (l.foldl (fun t i => tlbWrite t (tlbInvalid i) i) t).entries } := by
  induction l generalizing t with
  | nil => rfl
  | cons i l ih => rw [List.foldl_cons, ih]; rfl

theorem tlbContextSwitch_ok (t : Tlb) : SlotsOk (tlbContextSwitch t) (List.range numTlb) := by
  have he : tlbContextSwitch t = tlbInitFreeList { t with entries := (tlbContextSwitch t).entries } :=
    foldl_tlbWrite_eq _ _
  rw [he]
  refine tlbInitFreeList_ok fun k hk => ?_
  unfold Tlb.Blank
  dsimp only
  rw [tlbContextSwitch_entries t hk]
  exact ⟨rfl, Or.inl rfl⟩

theorem SlotsOk.step {op : TlbOp} (h : SlotsOk t free) (hop : op.Allowed t) (hfit : op.Fits t)
    (he : tlbStep t op = .ok t') : ∃ free', SlotsOk t' free' := by
  cases op with
  | bootstrap nodeId nodeNext =>
    obtain rfl := Except.ok.inj he
    refine ⟨_, tlbInitFreeList_ok fun k hk => ?_⟩
    exact h.blank k (h.mem_iff.mpr ⟨hk, hfit k hk⟩)
  | addEntry v p dirty => exact h.addEntry hfit.1 hop hfit.2 he
  | invalidateVaddr v => exact h.invalidateVaddr hfit he
  | contextSwitch =>
    obtain rfl := Except.ok.inj he
    exact ⟨_, tlbContextSwitch_ok t⟩

theorem SlotsOk.sound_iff {op : TlbOp} (h : SlotsOk t free) :
    op.Sound t ↔ ∀ v p d, op = .addEntry v p d → t.tlbnextfree ≠ some (numTlb - 1) := by
  have hprobe : ∀ v, ∀ i ∈ (tlbProbe t v).toList, i < numTlb := by
    intro v i hi
    rw [Option.mem_toList] at hi
    exact (tlbProbe_some hi).1
  cases op with
  | bootstrap nodeId nodeNext => exact ⟨nofun, fun _ => ⟨nofun, fun i => List.mem_range.mp, nofun⟩⟩
  | invalidateVaddr v => exact ⟨nofun, fun _ => ⟨hprobe v, hprobe v, nofun⟩⟩
  | contextSwitch => exact ⟨nofun, fun _ => ⟨fun i => List.mem_range.mp, fun i => List.mem_range.mp, nofun⟩⟩
  | addEntry v p d =>
    constructor
    · rintro hs - - - - hlast
      have := hs.nodes numTlb (by simp [TlbOp.nodes, hlast, h.lastId])
      omega
    · intro hne
      obtain ⟨node, rest, rfl, hhead, hlt, hid, -⟩ := h.head (hne v p d rfl)
      refine ⟨?_, ?_, fun _ _ _ _ i hi hheld => ?_⟩
      · simpa [TlbOp.writes, tlbGetFreeEntry, hhead, hid] using hlt
      · simpa [TlbOp.nodes, hhead, hid] using hlt
      · obtain rfl : i = node := by simpa [TlbOp.writes, tlbGetFreeEntry, hhead, hid] using hi
        rw [Nat.mod_eq_of_lt hlt] at hheld
        exact absurd hheld (h.blank i (List.mem_cons_self ..)).not_holds

/-! ## Runs -/

/-- The list is free of cycles and holds the slots without a user
translation, no page is in two slots, and a call is sound unless it adds an
entry from the last node. -/
theorem tlb_allocator_sound {nodeId : Nat → Nat} {nodeNext : Nat → Option Nat}
    (h : Reach tlbStep (fun t op => op.Allowed t ∧ op.Fits t) (tlbBootstrap nodeId nodeNext) t) :
    (∃ free, Chain t.nodeNext t.tlbnextfree free ∧ free.Nodup ∧ ∀ k, k ∈ free ↔ k < numTlb ∧ ¬ t.Holds k) ∧
      (∀ i < numTlb, ∀ j < numTlb, (t.entries i).vpage = (t.entries j).vpage → i = j) ∧
      ∀ op : TlbOp, op.Allowed t →
        (op.Sound t ↔ ∀ v p d, op = .addEntry v p d → t.tlbnextfree ≠ some (numTlb - 1)) := by
  obtain ⟨free, hok⟩ : ∃ free, SlotsOk t free := by
    refine h.invariant (I := fun t => ∃ free, SlotsOk t free) ?_ fun t op t' ⟨free, ht⟩ hop he => ht.step hop.1 hop.2 he
    exact ⟨_, tlbInitFreeList_ok fun k _ => ⟨rfl, Or.inr rfl⟩⟩
  exact ⟨⟨free, hok.chain, hok.nodup, fun k => hok.mem_iff⟩, fun i hi j hj => hok.apart hi hj,
    fun op _ => hok.sound_iff⟩

def nthEntry (n : Nat) : TlbOp := .addEntry (0x400000 + n * 0x1000) 0x1000 false

def filled : Nat → Tlb
  | 0 => tlbBootstrap (fun _ => 0) (fun _ => none)
  | n + 1 =>
    match tlbStep (filled n) (nthEntry n) with
    | .ok t => t
    | .error _ => filled n

theorem filled_succ {n : Nat} (h : (tlbStep (filled n) (nthEntry n)).toBool = true) :
    tlbStep (filled n) (nthEntry n) = .ok (filled (n + 1)) := by
  rw [filled]
  cases he : tlbStep (filled n) (nthEntry n) with
  | ok t => rfl
  | error e => rw [he] at h; cases h

theorem filled_reach {P : Tlb → TlbOp → Prop} (n : Nat)
    (h : ∀ i < n, P (filled i) (nthEntry i) ∧ (tlbStep (filled i) (nthEntry i)).toBool = true) :
    Reach tlbStep P (filled 0) (filled n) := by
  induction n with
  | zero => exact .refl
  | succ n ih =>
    obtain ⟨hop, hok⟩ := h n (Nat.lt_succ_self n)
    exact (ih fun i hi => h i (Nat.lt_succ_of_lt hi)).tail hop (filled_succ hok)

instance (op : TlbOp) : Decidable (op.Allowed t) :=
  match op with
  | .addEntry v _ _ => inferInstanceAs (Decidable (∀ k < numTlb, (t.entries k).vpage ≠ v))
  | .bootstrap _ _ | .invalidateVaddr _ | .contextSwitch => inferInstanceAs (Decidable True)

theorem tlb_allocator_sound_two :
    ∃ free, Chain (filled 2).nodeNext (filled 2).tlbnextfree free ∧ 1 ∉ free ∧ 2 ∈ free := by
  have h : Reach tlbStep (fun t op => op.Allowed t ∧ op.Fits t) (filled 0) (filled 2) := by
    refine filled_reach 2 fun i hi => ?_
    have hi : i = 0 ∨ i = 1 := by omega
    rcases hi with rfl | rfl
    · exact ⟨⟨by decide +kernel, by decide +kernel, by decide +kernel⟩, by decide +kernel⟩
    · exact ⟨⟨by decide +kernel, by decide +kernel, by decide +kernel⟩, by decide +kernel⟩
  obtain ⟨⟨free, hc, -, hmem⟩, -, -⟩ := tlb_allocator_sound h
  refine ⟨free, hc, fun h1 => ((hmem 1).mp h1).2 ?_, (hmem 2).mpr ⟨by decide, ?_⟩⟩
  · exact show ((filled 2).entries 1).valid = true by decide +kernel
  · exact show ¬ ((filled 2).entries 2).valid = true by decide +kernel

theorem last_node_out_of_bounds :
    Reach tlbStep (fun t op => op.Allowed t) (filled 0) (filled 63) ∧ (nthEntry 63).Allowed (filled 63) ∧
      (nthEntry 63).writes (filled 63) = [numTlb] ∧ (nthEntry 63).nodes (filled 63) = [63, numTlb] ∧
      tlbStep (filled 63) (nthEntry 63) = .ok (filled 64) ∧ ((filled 63).entries 0).vpage = 0x400000 ∧
      (∀ k < numTlb, ((filled 64).entries k).vpage ≠ 0x400000) ∧ (filled 64).tlbnextfree = none ∧
      ((filled 64).entries 63).valid = false := by
  refine ⟨filled_reach 63 (by decide +kernel), by decide +kernel, by decide +kernel, by decide +kernel,
    filled_succ (by decide +kernel), ?_⟩
  decide +kernel

end Os161
