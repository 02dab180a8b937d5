import Os161.Machine

/-!
# The TLB and its slot allocator

`vm_tlb.c` over the register-level operations of `machine/tlb.h`. A slot is
kept as the fields of its two words. Free slots are linked through
`tlbfreenodes`; a node's `id` is the slot it stands for.
-/

namespace Os161

def numTlb : Nat := 64

structure TlbEntry where
  vpage : Nat
  ppage : Nat
  dirty : Bool
  valid : Bool
  deriving DecidableEq, Repr

structure Tlb where
  entries : Nat → TlbEntry
  nodeId : Nat → Nat
  nodeNext : Nat → Option Nat
  tlbnextfree : Option Nat
  nextVictim : Nat

def tlbInvalid (entryno : Nat) : TlbEntry :=
  { vpage := (0x80000 + entryno) * 4096, ppage := 0, dirty := false, valid := false }

/-- `tlbwi`. The index field of the index register has six bits. -/
def tlbWrite (t : Tlb) (e : TlbEntry) (index : Nat) : Tlb :=
  { t with entries := Function.update t.entries (index % numTlb) e }

/-- `tlbp`: the valid bit plays no part in the match. -/
def tlbProbe (t : Tlb) (v : Nat) : Option Nat :=
  (List.range numTlb).find? fun i => (t.entries i).vpage == v

def tlbReset (entryno : Nat) : TlbEntry :=
  { vpage := 0x81000000 + entryno * 4096, ppage := 0, dirty := false, valid := false }

def tlbInitFreeList (t : Tlb) : Tlb :=
  { t with
    tlbnextfree := some 0
    -- the last node is given the id `NUM_TLB`, not its position
    nodeId := fun i => if i < numTlb - 1 then i else if i = numTlb - 1 then numTlb else t.nodeId i
    nodeNext := fun i => if i < numTlb - 1 then some (i + 1) else if i = numTlb - 1 then none else t.nodeNext i }

def tlbGetFreeEntry (t : Tlb) : Option Nat × Tlb :=
  match t.tlbnextfree with
  | none => (none, t)
  | some node =>
    let victim := t.nodeId node
    (some victim, { t with tlbnextfree := t.nodeNext node, nodeNext := Function.update t.nodeNext victim none })

def tlbGetRrVictim (t : Tlb) : Nat × Tlb :=
  (t.nextVictim, { t with nextVictim := (t.nextVictim + 1) % numTlb })

def tlbAddEntry (t : Tlb) (v p : Nat) (dirty : Bool) : Except Panic Tlb :=
  if v &&& pageFrame ≠ v then .error (.assertionFailed .vaddrIsPageAligned)
  else if p &&& pageFrame ≠ p then .error (.assertionFailed .paddrIsPageAligned)
  else
    let e : TlbEntry := { vpage := v, ppage := p, dirty := dirty, valid := true }
    match tlbGetFreeEntry t with
    | (some entry, t) => .ok (tlbWrite t e entry)
    | (none, t) =>
      let (entry, t) := tlbGetRrVictim t
      .ok (tlbWrite t e entry)

def tlbInvalidateVaddr (t : Tlb) (v : Nat) : Except Panic Tlb :=
  if v &&& pageFrame ≠ v then .error (.assertionFailed .vaddrIsPageAligned)
  else
    match tlbProbe t v with
    | none => .ok t
    | some victim =>
      let t := tlbWrite t (tlbInvalid victim) victim
      .ok { t with
        nodeNext := Function.update t.nodeNext victim t.tlbnextfree
        tlbnextfree := some victim }

def tlbContextSwitch (t : Tlb) : Tlb :=
  (List.range numTlb).foldl (fun t i => tlbWrite t (tlbInvalid i) i) (tlbInitFreeList t)

def tlbBootstrap (nodeId : Nat → Nat) (nodeNext : Nat → Option Nat) : Tlb :=
  tlbInitFreeList
    { entries := tlbReset, nodeId := nodeId, nodeNext := nodeNext, tlbnextfree := none, nextVictim := 0 }

/-! ## What the operations do to the slots -/

theorem tlbProbe_some {t : Tlb} {v k : Nat} (h : tlbProbe t v = some k) : k < numTlb ∧ (t.entries k).vpage = v := by
  unfold tlbProbe at h
  exact ⟨List.mem_range.mp (List.mem_of_find?_eq_some h), by simpa using List.find?_some h⟩

theorem tlbProbe_none {t : Tlb} {v : Nat} (h : tlbProbe t v = none) : ∀ i < numTlb, (t.entries i).vpage ≠ v := by
  unfold tlbProbe at h
  intro i hi
  simpa using List.find?_eq_none.mp h i (List.mem_range.mpr hi)

theorem tlbAddEntry_spec (t : Tlb) {v p : Nat} (dirty : Bool) (hv : v &&& pageFrame = v) (hp : p &&& pageFrame = p) :
    ∃ t', tlbAddEntry t v p dirty = .ok t' ∧
      ∃ k < numTlb, t'.entries = Function.update t.entries k
        { vpage := v, ppage := p, dirty := dirty, valid := true } := by
  unfold tlbAddEntry tlbGetFreeEntry
  simp only [hv, hp, ne_eq, not_true_eq_false, ite_false]
  cases t.tlbnextfree with
  | none => exact ⟨_, rfl, _, Nat.mod_lt _ (by decide), rfl⟩
  | some node => exact ⟨_, rfl, _, Nat.mod_lt _ (by decide), rfl⟩

theorem tlbAddEntry_entries {t t' : Tlb} {v p : Nat} {dirty : Bool} (h : tlbAddEntry t v p dirty = .ok t') :
    ∃ k < numTlb, t'.entries = Function.update t.entries k
      { vpage := v, ppage := p, dirty := dirty, valid := true } := by
  by_cases hv : v &&& pageFrame = v
  · by_cases hp : p &&& pageFrame = p
    · obtain ⟨t'', h'', hk⟩ := tlbAddEntry_spec t dirty hv hp
      cases h''.symm.trans h
      exact hk
    · simp [tlbAddEntry, hv, hp] at h
  · simp [tlbAddEntry, hv] at h

theorem tlbInvalidateVaddr_spec (t : Tlb) {v : Nat} (hv : v &&& pageFrame = v) :
    ∃ t', tlbInvalidateVaddr t v = .ok t' ∧
      (((∀ i < numTlb, (t.entries i).vpage ≠ v) ∧ t' = t) ∨
        ∃ k < numTlb, (t.entries k).vpage = v ∧ t'.entries = Function.update t.entries k (tlbInvalid k)) := by
  unfold tlbInvalidateVaddr
  simp only [hv, ne_eq, not_true_eq_false, ite_false]
  cases hp : tlbProbe t v with
  | none => exact ⟨_, rfl, Or.inl ⟨tlbProbe_none hp, rfl⟩⟩
  | some k =>
    obtain ⟨hk, hkv⟩ := tlbProbe_some hp
    exact ⟨_, rfl, Or.inr ⟨k, hk, hkv, by simp [tlbWrite, Nat.mod_eq_of_lt hk]⟩⟩

def Tlb.Shrinks (t t' : Tlb) : Prop := ∀ k, (t'.entries k).valid = true → t'.entries k = t.entries k

theorem Tlb.Shrinks.refl (t : Tlb) : t.Shrinks t := fun _ _ => rfl

theorem Tlb.Shrinks.trans {t t' t'' : Tlb} (h : t.Shrinks t') (h' : t'.Shrinks t'') : t.Shrinks t'' := by
  intro k hk
  have e := h' k hk
  rw [e] at hk
  exact e.trans (h k hk)

theorem tlbInvalidateVaddr_shrinks {t t' : Tlb} {v : Nat} (hv : v &&& pageFrame = v)
    (h : tlbInvalidateVaddr t v = .ok t') : t.Shrinks t' := by
  obtain ⟨t'', h'', ⟨-, rfl⟩ | ⟨i, -, -, he⟩⟩ := tlbInvalidateVaddr_spec t hv
  · cases h''.symm.trans h
    exact Tlb.Shrinks.refl _
  · cases h''.symm.trans h
    intro k hk
    by_cases e : k = i
    · rw [he, e, Function.update_self] at hk; cases hk
    · rw [he, Function.update_of_ne e]

theorem foldl_tlbWrite_entries (l : List Nat) (t : Tlb) (hl : ∀ i ∈ l, i < numTlb) (i : Nat) :
    (l.foldl (fun t i => tlbWrite t (tlbInvalid i) i) t).entries i = if i ∈ l then tlbInvalid i else t.entries i := by
  induction l generalizing t with
  | nil => simp
  | cons j l ih =>
    rw [List.foldl_cons, ih _ fun i hi => hl i (List.mem_cons_of_mem _ hi)]
    have hj : j % numTlb = j := Nat.mod_eq_of_lt (hl j (List.mem_cons_self ..))
    by_cases hi : i ∈ l
    · simp [hi]
    · by_cases hij : i = j
      · subst hij; simp [hi, tlbWrite, hj]
      · simp [hi, hij, tlbWrite, hj]

theorem tlbContextSwitch_entries (t : Tlb) {i : Nat} (hi : i < numTlb) :
    (tlbContextSwitch t).entries i = tlbInvalid i := by
  unfold tlbContextSwitch
  rw [foldl_tlbWrite_entries _ _ (fun i hi => List.mem_range.mp hi)]
  simp [hi]

end Os161
