import Os161.Queue32
import Os161.QueueSound

/-!
# The ring-buffer queue is a FIFO

Below 2^30 entries the queue with machine integers does what the queue with
natural numbers does (`Queue.ofNat`), which holds a list. From 2^30 on the
number of bytes of the buffer wraps, and a size of 2^31 is no `int`.
-/

namespace Os161.Q32

open Outcome

variable {α : Type} {q : Os161.Queue α} {l : List α} {x : α} {mem : Bool} {k m n : Nat}

/-! ## Small numbers -/

theorem int_small {n : Int} (h : -2 ^ 31 ≤ n) (h' : n < 2 ^ 31) : int n = n := by
  unfold int
  exact Int.bmod_eq_of_le (by omega) (by omega)

theorem int_double (hn : n < 2 ^ 31) (h : 2 ^ 31 ≤ n * 2) : int ((n : Int) * 2) < 0 := by
  have hmod : ((n : Int) * 2) % ((2 ^ 32 : Nat) : Int) = n * 2 := Int.emod_eq_of_lt (by omega) (by omega)
  unfold int Int.bmod
  simp only [hmod]
  rw [if_neg (by omega)]
  omega

theorem roomFor_small (h : n < 2 ^ 30) : roomFor n = n := by
  unfold roomFor u32
  omega

theorem roomFor_large (h : 2 ^ 30 ≤ n) (h' : n < 2 ^ 31) : roomFor n < n := by
  unfold roomFor u32
  omega

theorem natCast_tmod (a b : Nat) : ((a : Int).tmod b) = ((a % b : Nat) : Int) := by
  simp [Int.tmod]

/-! ## The same queue -/

def Queue.ofNat (q : Os161.Queue α) : Queue α where
  size := q.size
  nextwrite := q.nextwrite
  nextread := q.nextread
  room := q.size
  data := q.data

theorem ofNat_create (h : n < 2 ^ 30) : (qCreate n : Queue α) = .ofNat (Os161.qCreate n) := by
  simp [qCreate, Queue.ofNat, Os161.qCreate, roomFor_small h]

theorem ofNat_toList (h : q.nextread < q.size) : (Queue.ofNat q).toList = q.toList := by
  have hlen : (((q.nextwrite : Int) + q.size - q.nextread) % q.size).toNat =
      (q.nextwrite + q.size - q.nextread) % q.size := by
    rw [show (q.nextwrite : Int) + q.size - q.nextread = ((q.nextwrite + q.size - q.nextread : Nat) : Int) by omega]
    rfl
  simp only [Queue.toList, Os161.Queue.toList, Queue.ofNat, hlen]
  rfl

theorem ofNat_empty : qEmpty (Queue.ofNat q) = Os161.qEmpty q := by
  rw [Bool.eq_iff_iff, qEmpty, Os161.qEmpty, beq_iff_eq, beq_iff_eq]
  exact Int.natCast_inj

section
variable (hs : q.size < 2 ^ 30)
include hs

theorem ofNat_nextnext (hw : q.nextwrite < q.size) :
    (Queue.ofNat q).nextnext = ((q.nextwrite + 1) % q.size : Nat) := by
  have hint : int ((q.nextwrite : Int) + 1) = ((q.nextwrite + 1 : Nat) : Int) :=
    int_small (by omega) (by omega)
  simp only [Queue.nextnext, Queue.ofNat, hint, natCast_tmod]

theorem ofNat_store (hw : q.nextwrite < q.size) (x : α) :
    qStore (Queue.ofNat q) x = .ok (.ofNat (Os161.qStore q x)) := by
  have hnext := ofNat_nextnext hs hw
  unfold qStore
  rw [if_pos ⟨Int.natCast_nonneg _, hw⟩, hnext]
  rfl

theorem ofNat_addtailInner (hw : q.nextwrite < q.size) (hfull : (q.nextwrite + 1) % q.size ≠ q.nextread) (x : α) :
    qAddtailInner (Queue.ofNat q) x = .ok (.ofNat (Os161.qStore q x)) := by
  have hpos : ¬ ((Queue.ofNat q).size ≤ 0) := by simp only [Queue.ofNat]; omega
  have hnext : (Queue.ofNat q).nextnext ≠ (Queue.ofNat q).nextread := by
    rw [ofNat_nextnext hs hw]
    simp only [Queue.ofNat]
    omega
  unfold qAddtailInner
  rw [if_neg hpos, if_neg hnext, ofNat_store hs hw]

theorem ofNat_growLoop {old q' : Os161.Queue α} {i : Nat} (hold : old.size < 2 ^ 30) (hi : i < old.size)
    (hw : q.nextwrite < q.size) (h : Os161.qGrowLoop old m i q = .ok q') :
    qGrowLoop (Queue.ofNat old) m i (Queue.ofNat q) = .ok (.ofNat q') := by
  induction m generalizing i q with
  | zero => rw [← Except.ok.inj h]; rfl
  | succ m ih =>
    unfold Os161.qGrowLoop at h
    unfold qGrowLoop
    by_cases hend : i = old.nextwrite
    · rw [if_pos hend] at h
      rw [if_pos (by simp only [Queue.ofNat, hend]), ← Except.ok.inj h]
    · rw [if_neg hend] at h
      rw [if_neg (by simp only [Queue.ofNat]; omega)]
      cases hd : old.data i with
      | none =>
        rw [hd] at h
        cases h
      | some ptr =>
        rw [hd] at h
        simp only at h
        split at h
        · cases h
        rename_i hfull
        have hcell : (Queue.ofNat old).cell i = .ok ptr := by
          unfold Queue.cell
          rw [if_pos ⟨Int.natCast_nonneg _, hi⟩]
          simp only [Queue.ofNat, Int.toNat_natCast, hd]
        have hstep : (int ((i : Int) + 1)).tmod (Queue.ofNat old).size = ((i + 1) % old.size : Nat) := by
          rw [show int ((i : Int) + 1) = ((i + 1 : Nat) : Int) from int_small (by omega) (by omega)]
          exact natCast_tmod _ _
        rw [hcell, ok_bind, ofNat_addtailInner hs hw hfull, ok_bind, hstep]
        exact ih (q := Os161.qStore q ptr) hs (Nat.mod_lt _ (by omega)) (Nat.mod_lt _ (Nat.zero_lt_of_lt hw)) h

end

/-! ## The size of the new buffer -/

theorem growSize_ge : k ≤ Os161.qGrowSize m k n := by
  induction m generalizing k with
  | zero => exact Nat.le_refl _
  | succ m ih =>
    unfold Os161.qGrowSize
    split
    · have := @ih (k * 2)
      omega
    · exact Nat.le_refl _

theorem growSize_eq {r : Nat} (hk : 0 < k) (hr : 2 ^ 31 ≤ k * 2 ^ r) (hm : n ≤ k + m) (hk' : k < 2 ^ 31) :
    qGrowSize r k n = if Os161.qGrowSize m k n < 2 ^ 31 then some ((Os161.qGrowSize m k n : Nat) : Int) else none := by
  induction r generalizing k m with
  | zero => omega
  | succ r ih =>
    unfold qGrowSize
    by_cases hlt : k < n
    · obtain ⟨m, rfl⟩ : ∃ m', m = m' + 1 := ⟨m - 1, by omega⟩
      have hgrow : Os161.qGrowSize (m + 1) k n = Os161.qGrowSize m (k * 2) n := by
        rw [Os161.qGrowSize, if_pos hlt]
      rw [if_pos (by omega), hgrow]
      by_cases hbig : 2 ^ 31 ≤ k * 2
      · have hge := @growSize_ge (k * 2) m n
        rw [if_pos (Int.le_of_lt (int_double hk' hbig)), if_neg (by omega)]
      · have hint : int ((k : Int) * 2) = ((k * 2 : Nat) : Int) := by
          rw [int_small (by omega) (by omega)]
          omega
        rw [hint, if_neg (by omega)]
        exact ih (by omega) (by rw [Nat.mul_assoc, ← Nat.pow_succ']; exact hr) (by omega) (by omega)
    · have hsame : Os161.qGrowSize m k n = k := by
        cases m with
        | zero => rfl
        | succ m => rw [Os161.qGrowSize, if_neg hlt]
      rw [if_neg (by omega), hsame, if_pos hk']

/-! ## Growing -/

def grown (size target : Int) : Nat := Os161.qGrowSize target.toNat size.toNat target.toNat

/-- The new size is below 2^30, or it is an `int` and there is no memory. -/
def GrowFits (size target : Int) (mem : Bool) : Prop :=
  grown size target < 2 ^ 30 ∨ (mem = false ∧ grown size target < 2 ^ 31)

theorem growLoop_size {old q' : Os161.Queue α} {i : Nat} (h : Os161.qGrowLoop old m i q = .ok q') :
    q'.size = q.size := by
  induction m generalizing i q with
  | zero => rw [← Except.ok.inj h]
  | succ m ih =>
    unfold Os161.qGrowLoop at h
    split at h
    · rw [← Except.ok.inj h]
    split at h
    · cases h
    split at h
    · cases h
    · exact ih (q := Os161.qStore q _) h

theorem store_shape {q q' : Queue α} (h : qStore q x = .ok q') : q'.size = q.size ∧ q'.room = q.room := by
  unfold qStore at h
  split at h
  · rw [← Except.ok.inj h]
    exact ⟨rfl, rfl⟩
  · cases h

theorem store_enomem {q : Queue α} : qStore q x ≠ .error .enomem := by
  unfold qStore
  split <;> nofun

theorem addtailInner_shape {q : Queue α} :
    qAddtailInner q x ≠ .error .enomem ∧ ∀ q', qAddtailInner q x = .ok q' → q'.size = q.size ∧ q'.room = q.room := by
  unfold qAddtailInner
  split
  · exact ⟨nofun, nofun⟩
  split
  · exact ⟨nofun, nofun⟩
  · exact ⟨store_enomem, fun _ => store_shape⟩

theorem cell_enomem {q : Queue α} {i : Int} : q.cell i ≠ .error .enomem := by
  unfold Queue.cell
  split
  · split <;> nofun
  · nofun

theorem growLoop_shape {old q : Queue α} {i : Int} :
    qGrowLoop old m i q ≠ .error .enomem ∧ ∀ q', qGrowLoop old m i q = .ok q' → q'.size = q.size ∧
    q'.room = q.room := by
  induction m generalizing i q with
  | zero => exact ⟨nofun, fun q' h => by rw [← Except.ok.inj h]; exact ⟨rfl, rfl⟩⟩
  | succ m ih =>
    unfold qGrowLoop
    split
    · exact ⟨nofun, fun q' h => by rw [← Except.ok.inj h]; exact ⟨rfl, rfl⟩⟩
    · cases hc : old.cell i with
      | error e =>
        refine ⟨fun h => ?_, nofun⟩
        obtain rfl : e = .enomem := Except.error.inj h
        exact cell_enomem hc
      | ok ptr =>
        rw [ok_bind]
        obtain ⟨hne, hsame⟩ := @addtailInner_shape α ptr q
        cases ha : qAddtailInner q ptr with
        | error e => exact ⟨fun h => hne (ha.trans h), nofun⟩
        | ok q₁ =>
          obtain ⟨hsize, hroom⟩ := hsame q₁ ha
          rw [ok_bind]
          refine ⟨ih.1, fun q' h => ?_⟩
          rw [← hsize, ← hroom]
          exact ih.2 q' h

section
variable (h : q.Holds l) (hs : q.size < 2 ^ 30)
include h hs

theorem growSize_grown (n : Nat) :
    qGrowSize 32 (Queue.ofNat q).size n =
      if grown q.size n < 2 ^ 31 then some ((grown q.size n : Nat) : Int) else none := by
  have hpos := Nat.zero_lt_of_lt h.read
  exact growSize_eq (m := n) hpos (by omega) (Nat.le_add_left _ _) (by omega)

theorem grow_fits (hn : q.size < n) (hf : GrowFits q.size n mem) :
    (∃ q', qGrow (Queue.ofNat q) n mem = .ok (.ofNat q') ∧ q'.Holds l ∧ n ≤ q'.size ∧ q'.size < 2 ^ 30) ∨
      (mem = false ∧ qGrow (Queue.ofNat q) n mem = .error .enomem) := by
  have hsize := growSize_grown h hs n
  unfold qGrow
  cases mem with
  | false =>
    rw [if_pos (by rcases hf with hf | hf <;> omega)] at hsize
    rw [hsize]
    exact Or.inr ⟨rfl, rfl⟩
  | true =>
    have hsmall : grown q.size n < 2 ^ 30 := hf.resolve_right nofun
    rw [if_pos (by omega)] at hsize
    obtain ⟨q', heq, hholds, hge⟩ := h.grow (Nat.le_of_lt hn)
    have heq' : Os161.qGrowLoop q q.size q.nextread (Os161.qCreate (grown q.size n)) = .ok q' := heq
    have hcreate := Nat.zero_lt_of_lt h.read
    have hloop := ofNat_growLoop (q := Os161.qCreate (grown q.size n)) hsmall hs h.read
      (show 0 < grown q.size n from Nat.lt_of_lt_of_le hcreate growSize_ge) heq'
    rw [hsize]
    refine Or.inl ⟨q', ?_, hholds, hge, ?_⟩
    · rw [← ofNat_create hsmall] at hloop
      exact hloop
    · rw [growLoop_size heq']
      exact hsmall

theorem grow_unfit (hf : ¬ GrowFits q.size n mem) :
    qGrow (Queue.ofNat q) n mem ≠ .error .enomem ∧
      ∀ q', qGrow (Queue.ofNat q) n mem = .ok q' → (q'.room : Int) < q'.size := by
  have hsize := growSize_grown h hs n
  unfold qGrow
  by_cases hbig : grown q.size n < 2 ^ 31
  · rw [if_pos hbig] at hsize
    rw [hsize]
    cases mem with
    | false => exact absurd (Or.inr ⟨rfl, hbig⟩) hf
    | true =>
      refine ⟨growLoop_shape.1, fun q' he => ?_⟩
      obtain ⟨hsize', hroom⟩ := growLoop_shape.2 q' he
      rw [hsize', hroom]
      have hlarge : 2 ^ 30 ≤ grown q.size n := by
        by_contra hlt
        exact hf (Or.inl (by omega))
      exact Int.ofNat_lt.mpr (roomFor_large hlarge hbig)
  · rw [if_neg hbig] at hsize
    rw [hsize]
    exact ⟨nofun, nofun⟩

end

/-! ## Queues that stand for a list -/

structure Queue.Sound (q : Queue α) : Prop where
  room : (q.room : Int) = q.size
  read : 0 ≤ q.nextread ∧ q.nextread < q.size
  write : 0 ≤ q.nextwrite ∧ q.nextwrite < q.size

def Denotes (Q : Queue α) (l : List α) : Prop := ∃ q, Q = .ofNat q ∧ q.Holds l ∧ q.size < 2 ^ 30

theorem write_lt (h : q.Holds l) : q.nextwrite < q.size := by
  rw [h.write]
  exact Nat.mod_lt _ (Nat.zero_lt_of_lt h.read)

theorem size_pos (h : q.Holds l) : ¬ (Queue.ofNat q).size ≤ 0 := by
  have := h.read
  simp only [Queue.ofNat]
  omega

theorem nextnext_iff (h : q.Holds l) (hs : q.size < 2 ^ 30) :
    (Queue.ofNat q).nextnext = (Queue.ofNat q).nextread ↔ l.length + 1 = q.size := by
  rw [ofNat_nextnext hs (write_lt h), ← h.full_iff]
  exact Int.natCast_inj

section
variable {Q : Queue α} (h : Denotes Q l)
include h

theorem Denotes.toList : Q.toList = l := by
  obtain ⟨q, rfl, hq, -⟩ := h
  rw [ofNat_toList hq.read]
  exact hq.toList

theorem Denotes.sound : Q.Sound := by
  obtain ⟨q, rfl, hq, -⟩ := h
  have hread := hq.read
  have hwrite := write_lt hq
  refine ⟨rfl, ?_, ?_⟩ <;> simp only [Queue.ofNat] <;> omega

theorem Denotes.empty_iff : qEmpty Q = true ↔ l = [] := by
  obtain ⟨q, rfl, hq, -⟩ := h
  rw [ofNat_empty]
  exact hq.empty_iff

end

/-! ## The operations -/

def QOp.Fits (q : Queue α) : QOp α → Prop
  | .addtail _ mem => q.nextnext = q.nextread → GrowFits q.size (q.size + 1) mem
  | .remhead => True
  | .preallocate size mem => q.size < size → GrowFits q.size size mem

def QOp.AsList (q : Queue α) : QOp α → Prop
  | .addtail x mem => (∃ q', qAddtail q x mem = .ok q' ∧ q'.Sound ∧ q'.toList = q.toList ++ [x]) ∨
    (mem = false ∧ qAddtail q x mem = .error .enomem)
  | .remhead => ∃ x q', qRemhead q = .ok (x, q') ∧ q'.Sound ∧ q.toList = x :: q'.toList
  | .preallocate size mem =>
    (∃ q', qPreallocate q size mem = .ok q' ∧ q'.Sound ∧ size ≤ q'.size ∧ q'.toList = q.toList) ∨
      (mem = false ∧ qPreallocate q size mem = .error .enomem)

section
variable {Q : Queue α} (h : Denotes Q l)
include h

theorem Denotes.addtail (hf : (QOp.addtail x mem).Fits Q) :
    (∃ Q', qAddtail Q x mem = .ok Q' ∧ Denotes Q' (l ++ [x])) ∨ (mem = false ∧ qAddtail Q x mem = .error .enomem) := by
  obtain ⟨q, rfl, hq, hs⟩ := h
  have hroom := hq.room
  unfold qAddtail
  rw [if_neg (size_pos hq)]
  by_cases hfull : l.length + 1 = q.size
  · have hnext := (nextnext_iff hq hs).mpr hfull
    have hint : int ((Queue.ofNat q).size + 1) = ((q.size + 1 : Nat) : Int) :=
      int_small (by simp only [Queue.ofNat]; omega) (by simp only [Queue.ofNat]; omega)
    rw [if_pos hnext, hint]
    rcases grow_fits hq hs (Nat.lt_succ_self q.size) (hf hnext) with ⟨q', heq, hq', hge, hs'⟩ | ⟨hmem, heq⟩
    · rw [heq, ok_bind, ofNat_store hs' (write_lt hq')]
      exact Or.inl ⟨_, rfl, _, rfl, hq'.store (by omega) x, hs'⟩
    · rw [heq]
      exact Or.inr ⟨hmem, rfl⟩
  · rw [if_neg (mt (nextnext_iff hq hs).mp hfull), ofNat_store hs (write_lt hq)]
    exact Or.inl ⟨_, rfl, _, rfl, hq.store (by omega) x, hs⟩

theorem Denotes.preallocate {size : Int} (hi : size < 2 ^ 31) (hf : (.preallocate size mem : QOp α).Fits Q) :
    (∃ Q', qPreallocate Q size mem = .ok Q' ∧ size ≤ Q'.size ∧ Denotes Q' l) ∨
      (mem = false ∧ qPreallocate Q size mem = .error .enomem) := by
  obtain ⟨q, rfl, hq, hs⟩ := h
  unfold qPreallocate
  rw [if_neg (size_pos hq)]
  by_cases hlt : (Queue.ofNat q).size < size
  · obtain ⟨n, rfl⟩ : ∃ n : Nat, size = n := ⟨size.toNat, by simp only [Queue.ofNat] at hlt; omega⟩
    rw [if_pos hlt]
    rcases grow_fits hq hs (Int.ofNat_lt.mp hlt) (hf hlt) with ⟨q', heq, hq', hge, hs'⟩ | ⟨hmem, heq⟩
    · exact Or.inl ⟨_, heq, Int.ofNat_le.mpr hge, _, rfl, hq', hs'⟩
    · exact Or.inr ⟨hmem, heq⟩
  · rw [if_neg hlt]
    exact Or.inl ⟨_, rfl, by omega, _, rfl, hq, hs⟩

end

theorem Denotes.remhead {Q : Queue α} (h : Denotes Q (x :: l)) : ∃ Q', qRemhead Q = .ok (x, Q') ∧ Denotes Q' l := by
  obtain ⟨q, rfl, hq, hs⟩ := h
  obtain ⟨q', heq, hq', hsize⟩ := hq.remhead
  have hread := hq.read
  have hne : ¬ ((Queue.ofNat q).size ≤ 0 ∨ qEmpty (Queue.ofNat q) = true) := by
    rw [ofNat_empty, hq.empty_iff]
    exact not_or.mpr ⟨size_pos hq, List.cons_ne_nil x l⟩
  have hcell : (Queue.ofNat q).cell (Queue.ofNat q).nextread = .ok x := by
    have hhead := hq.stored.head
    rw [Nat.mod_eq_of_lt hread] at hhead
    unfold Queue.cell
    rw [if_pos ⟨Int.natCast_nonneg _, hread⟩]
    simp only [Queue.ofNat, Int.toNat_natCast, hhead]
  have hnext : (int ((Queue.ofNat q).nextread + 1)).tmod (Queue.ofNat q).size = ((q.nextread + 1) % q.size : Nat) := by
    rw [show int ((Queue.ofNat q).nextread + 1) = ((q.nextread + 1 : Nat) : Int) from
      int_small (by simp only [Queue.ofNat]; omega) (by simp only [Queue.ofNat]; omega)]
    exact natCast_tmod _ _
  obtain rfl : q' = { q with nextread := (q.nextread + 1) % q.size } := by
    unfold Os161.qRemhead at heq
    split at heq
    · cases heq
    split at heq
    · cases heq
    · exact (Prod.mk.inj (Except.ok.inj heq)).2.symm
  refine ⟨_, ?_, _, rfl, hq', hs⟩
  unfold qRemhead
  rw [if_neg hne, hcell, ok_bind, hnext]
  rfl

/-! ## Runs -/

section
variable {Q Q' : Queue α} {a : QOp α} (h : Denotes Q l) (hc : a.callable Q)
include h hc

theorem Denotes.asList (hf : a.Fits Q) : a.AsList Q := by
  have hl := h.toList
  cases a with
  | addtail x mem =>
    refine (h.addtail hf).imp (fun ⟨Q', heq, h'⟩ => ⟨Q', heq, h'.sound, ?_⟩) id
    rw [h'.toList, hl]
  | remhead =>
    cases l with
    | nil => exact absurd (h.empty_iff.mpr rfl) (by rw [show qEmpty Q = false from hc]; nofun)
    | cons x l =>
      obtain ⟨Q', heq, h'⟩ := h.remhead
      exact ⟨x, Q', heq, h'.sound, by rw [hl, h'.toList]⟩
  | preallocate size mem =>
    refine (h.preallocate hc.2 hf).imp (fun ⟨Q', heq, hge, h'⟩ => ⟨Q', heq, h'.sound, hge, ?_⟩) id
    rw [h'.toList, hl]

omit hc in
theorem Denotes.fits (ha : a.AsList Q) : a.Fits Q := by
  obtain ⟨q, rfl, hq, hs⟩ := h
  cases a with
  | addtail x mem =>
    intro hnext
    by_contra hf
    have hint : int ((Queue.ofNat q).size + 1) = ((q.size + 1 : Nat) : Int) :=
      int_small (by simp only [Queue.ofNat]; omega) (by simp only [Queue.ofNat]; omega)
    obtain ⟨hne, hsmall⟩ := grow_unfit (n := q.size + 1) hq hs hf
    have heq : qAddtail (Queue.ofNat q) x mem = qGrow (Queue.ofNat q) ((q.size + 1 : Nat) : Int) mem >>=
        (qStore · x) := by
      unfold qAddtail
      rw [if_neg (size_pos hq), if_pos hnext, hint]
    rcases ha with ⟨Q', ha, hsound, -⟩ | ⟨-, ha⟩
    · rw [heq] at ha
      obtain ⟨Q₁, hgrow, hstore⟩ := bind_eq_ok.mp ha
      have hlt := hsmall Q₁ hgrow
      obtain ⟨hsize, hroom⟩ := store_shape hstore
      have hsame := hsound.room
      rw [hsize, hroom] at hsame
      omega
    · rw [heq] at ha
      rcases bind_eq_error.mp ha with ha | ⟨Q₁, -, ha⟩
      · exact hne ha
      · exact store_enomem ha
  | remhead => trivial
  | preallocate size mem =>
    intro hlt
    by_contra hf
    obtain ⟨n, rfl⟩ : ∃ n : Nat, size = n := ⟨size.toNat, by simp only [Queue.ofNat] at hlt; omega⟩
    obtain ⟨hne, hsmall⟩ := grow_unfit hq hs hf
    have heq : qPreallocate (Queue.ofNat q) n mem = qGrow (Queue.ofNat q) n mem := by
      unfold qPreallocate
      rw [if_neg (size_pos hq), if_pos hlt]
    rcases ha with ⟨Q', ha, hsound, -⟩ | ⟨-, ha⟩
    · have := hsmall Q' (heq ▸ ha)
      have hsame := hsound.room
      omega
    · exact hne (heq ▸ ha)

theorem Denotes.step (hf : a.Fits Q) (he : qStep Q a = .ok Q') : ∃ l', Denotes Q' l' := by
  cases a with
  | addtail x mem =>
    rcases h.addtail hf with ⟨Q₁, heq, h₁⟩ | ⟨-, heq⟩ <;> simp only [qStep, heq, orSame] at he <;>
      obtain rfl := Except.ok.inj he
    · exact ⟨_, h₁⟩
    · exact ⟨_, h⟩
  | remhead =>
    cases l with
    | nil => exact absurd (h.empty_iff.mpr rfl) (by rw [show qEmpty Q = false from hc]; nofun)
    | cons x l =>
      obtain ⟨Q₁, heq, h₁⟩ := h.remhead
      simp only [qStep, heq, ok_bind] at he
      obtain rfl := Except.ok.inj he
      exact ⟨_, h₁⟩
  | preallocate size mem =>
    rcases h.preallocate hc.2 hf with ⟨Q₁, heq, -, h₁⟩ | ⟨-, heq⟩ <;> simp only [qStep, heq, orSame] at he <;>
      obtain rfl := Except.ok.inj he
    · exact ⟨_, h₁⟩
    · exact ⟨_, h⟩

end

/-- In every run in which the buffer stays below 2^30 entries the queue stands
for a list, and each operation does to the list what it should exactly if it
does not have to grow the buffer to 2^30 entries. -/
theorem queue_is_fifo_iff {n : Int} {Q : Queue α} (h1 : 1 ≤ n) (h30 : n < 2 ^ 30)
    (h : Reach qStep (fun q a => a.callable q ∧ a.Fits q) (qCreate n : Queue α) Q) :
    (0 ≤ Q.nextread ∧ Q.nextread < Q.size) ∧ (0 ≤ Q.nextwrite ∧ Q.nextwrite < Q.size) ∧
      (qEmpty Q = true ↔ Q.toList = []) ∧ ∀ a : QOp α, a.callable Q → (a.AsList Q ↔ a.Fits Q) := by
  have hstart : Denotes (qCreate n : Queue α) [] := by
    obtain ⟨k, rfl⟩ : ∃ k : Nat, n = k := ⟨n.toNat, by omega⟩
    exact ⟨Os161.qCreate k, ofNat_create (by omega), .create (by omega), show k < 2 ^ 30 by omega⟩
  have hinv : ∃ l, Denotes Q l :=
    h.invariant (I := fun Q => ∃ l, Denotes Q l) ⟨[], hstart⟩ fun Q a Q' ⟨l, hl⟩ ha he => hl.step ha.1 ha.2 he
  obtain ⟨l, hl⟩ := hinv
  have hsound := hl.sound
  refine ⟨hsound.read, hsound.write, ?_, fun a ha => ⟨hl.fits, hl.asList ha⟩⟩
  rw [hl.empty_iff, hl.toList]

instance QOp.decidableFits (q : Queue α) (a : QOp α) : Decidable (a.callable q ∧ a.Fits q) :=
  match a with
  | .addtail _ mem => inferInstanceAs (Decidable (True ∧ (q.nextnext = q.nextread → _ ∨ (mem = false ∧ _))))
  | .remhead => inferInstanceAs (Decidable (_ = false ∧ True))
  | .preallocate size mem => inferInstanceAs (Decidable ((_ ∧ _) ∧ (q.size < size → _ ∨ (mem = false ∧ _))))

/-- A ring of four cells that is full from the third on and has to grow. -/
theorem queue_is_fifo_wrapped : ∃ Q : Queue Nat, Reach qStep (fun q a => a.callable q ∧ a.Fits q) (qCreate 4) Q ∧
    Q.nextwrite < Q.nextread ∧ Q.nextnext = Q.nextread ∧
    ∃ q', qAddtail Q 6 true = .ok q' ∧ q'.toList = [3, 4, 5, 6] := by
  obtain ⟨Q, hreach, hwrap, hfull, hsize, hlist⟩ : ∃ Q : Queue Nat,
      Reach qStep (fun q a => a.callable q ∧ a.Fits q) (qCreate 4) Q ∧ Q.nextwrite < Q.nextread ∧
        Q.nextnext = Q.nextread ∧ Q.size = 4 ∧ Q.toList = [3, 4, 5] :=
    Reach.of_leads (l := [.addtail 1 true, .addtail 2 true, .addtail 3 true, .remhead, .remhead, .addtail 4 true,
      .addtail 5 true]) (by decide)
  have hfifo := queue_is_fifo_iff (by decide) (by decide) hreach
  rcases (hfifo.2.2.2 (.addtail 6 true) trivial).mpr
    fun _ => Or.inl (by rw [hsize]; decide) with ⟨q', heq, -, hl⟩ | ⟨hno, -⟩
  · exact ⟨Q, hreach, hwrap, hfull, q', heq, by rw [hl, hlist]; rfl⟩
  · cases hno

theorem preallocate_too_much : qPreallocate (qCreate 1 : Queue Nat) (2 ^ 31 - 1) true = .error .assertion ∧
    ∃ q', qPreallocate (qCreate 1 : Queue Nat) (2 ^ 30) true = .ok q' ∧ q'.size = 2 ^ 30 ∧ q'.room = 0 ∧
      qAddtail q' 7 true = .error .outOfBounds := by
  have hnone : qGrowSize 32 1 2147483647 = none := by decide
  have hsome : qGrowSize 32 1 1073741824 = some 1073741824 := by decide
  refine ⟨?_, qCreate (2 ^ 30), ?_, rfl, by decide, ?_⟩
  · simp [qPreallocate, qGrow, qCreate, hnone]
  · simp [qPreallocate, qGrow, qCreate, hsome, qGrowLoop]
  · simp [qAddtail, Queue.nextnext, qCreate, qStore, roomFor, u32, int, Int.bmod]

end Os161.Q32
