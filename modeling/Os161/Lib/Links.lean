import Mathlib.Data.List.Nodup

/-!
# Linked lists given by their link functions

`Chain nx h l`: following the links `nx` from `h` visits exactly `l` and
stops. A doubly linked list (`DList`) is a chain forwards along `nx` and a
chain backwards along `pv`. The update rules take the new link functions
pointwise, so that they apply to whatever record the links are stored in.
-/

namespace Linked

variable {α : Type*} {nx nx' pv pv' : α → Option α} {h hd lt : Option α} {l l₁ l₂ l₃ : List α} {a b p n : α}

def Chain (nx : α → Option α) : Option α → List α → Prop
  | h, [] => h = none
  | h, a :: l => h = some a ∧ Chain nx (nx a) l

@[simp] theorem chain_nil : Chain nx h [] ↔ h = none := Iff.rfl

@[simp] theorem chain_cons : Chain nx h (a :: l) ↔ h = some a ∧ Chain nx (nx a) l := Iff.rfl

/-! ## One chain -/

theorem Chain.head_eq (c : Chain nx h l) : h = l.head? := by
  cases l with
  | nil => exact c
  | cons a l => exact c.1

theorem Chain.none_iff (c : Chain nx h l) : h = none ↔ l = [] := by
  rw [c.head_eq]; exact List.head?_eq_none_iff

theorem Chain.congr (c : Chain nx h l) (e : ∀ x ∈ l, nx' x = nx x) : Chain nx' h l := by
  induction l generalizing h with
  | nil => exact c
  | cons a l ih =>
    refine ⟨c.1, ?_⟩
    rw [e a (List.mem_cons_self ..)]
    exact ih c.2 fun x hx => e x (List.mem_cons_of_mem _ hx)

theorem Chain.unique (c₁ : Chain nx h l₁) (c₂ : Chain nx h l₂) : l₁ = l₂ := by
  induction l₁ generalizing h l₂ with
  | nil => exact ((c₂.none_iff).mp c₁).symm
  | cons a l₁ ih =>
    cases l₂ with
    | nil => exact absurd (c₁.1.symm.trans c₂) (by simp)
    | cons b l₂ =>
      have hab : a = b := Option.some.inj (c₁.1.symm.trans c₂.1)
      subst hab
      rw [ih c₁.2 c₂.2]

theorem Chain.after (c : Chain nx h (l₁ ++ a :: l₂)) : Chain nx (nx a) l₂ := by
  induction l₁ generalizing h with
  | nil => exact c.2
  | cons b l₁ ih => exact ih c.2

theorem Chain.link (c : Chain nx h (l₁ ++ a :: l₂)) : nx a = l₂.head? := c.after.head_eq

theorem Chain.splice (c : Chain nx h (l₁ ++ a :: l₂)) (e : ∀ x ∈ l₁, nx' x = nx x)
    (c' : Chain nx' (nx' a) l₃) : Chain nx' h (l₁ ++ a :: l₃) := by
  induction l₁ generalizing h with
  | nil => exact ⟨c.1, c'⟩
  | cons b l₁ ih =>
    refine ⟨c.1, ?_⟩
    rw [e b (List.mem_cons_self ..)]
    exact ih c.2 fun x hx => e x (List.mem_cons_of_mem _ hx)

theorem Chain.snoc (c : Chain nx h (l ++ [b])) (e : ∀ x ∈ l, nx' x = nx x)
    (hb : nx' b = some a) (ha : nx' a = none) : Chain nx' h (l ++ [b, a]) :=
  c.splice e (by rw [hb]; exact ⟨rfl, ha⟩)

theorem chain_range' {nx : Nat → Option Nat} (a n : Nat) (hs : ∀ i < n, nx (a + i) = some (a + i + 1))
    (hl : nx (a + n) = none) : Chain nx (some a) (List.range' a (n + 1)) := by
  induction n generalizing a with
  | zero => exact ⟨rfl, hl⟩
  | succ n ih =>
    refine ⟨rfl, ?_⟩
    have h0 := hs 0 (Nat.succ_pos n)
    rw [Nat.add_zero] at h0
    rw [h0]
    refine ih (a + 1) (fun i hi => ?_) ?_
    · have := hs (i + 1) (Nat.succ_lt_succ hi)
      rwa [show a + (i + 1) = a + 1 + i by omega] at this
    · rwa [show a + (n + 1) = a + 1 + n by omega] at hl

theorem chain_range'_reverse {nx : Nat → Option Nat} (a n : Nat) (hs : ∀ i < n, nx (a + i + 1) = some (a + i))
    (hl : nx a = none) : Chain nx (some (a + n)) (List.range' a (n + 1)).reverse := by
  induction n with
  | zero => exact ⟨rfl, hl⟩
  | succ n ih =>
    rw [List.range'_concat, List.reverse_append, Nat.one_mul]
    refine ⟨rfl, ?_⟩
    rw [← Nat.add_assoc, hs n (Nat.lt_succ_self n)]
    exact ih fun i hi => hs i (Nat.lt_succ_of_lt hi)

/-! ## Chains in both directions -/

structure DList (nx pv : α → Option α) (hd lt : Option α) (l : List α) : Prop where
  fwd : Chain nx hd l
  bwd : Chain pv lt l.reverse
  nodup : l.Nodup

theorem DList.symm (d : DList nx pv hd lt l) : DList pv nx lt hd l.reverse :=
  ⟨d.bwd, by rw [List.reverse_reverse]; exact d.fwd, List.nodup_reverse.mpr d.nodup⟩

theorem DList.of_symm (d : DList pv nx lt hd l.reverse) : DList nx pv hd lt l := by
  have := d.symm; rwa [List.reverse_reverse] at this

theorem DList.empty : DList nx pv none none [] := ⟨rfl, rfl, List.nodup_nil⟩

theorem DList.singleton (hn : nx a = none) (hp : pv a = none) : DList nx pv (some a) (some a) [a] :=
  ⟨⟨rfl, hn⟩, ⟨rfl, hp⟩, List.nodup_singleton a⟩

theorem DList.congr (d : DList nx pv hd lt l) (en : ∀ x ∈ l, nx' x = nx x) (ep : ∀ x ∈ l, pv' x = pv x) :
    DList nx' pv' hd lt l :=
  ⟨d.fwd.congr en, d.bwd.congr fun x hx => ep x (List.mem_reverse.mp hx), d.nodup⟩

theorem DList.head_eq (d : DList nx pv hd lt l) : hd = l.head? := d.fwd.head_eq

theorem DList.last_eq (d : DList nx pv hd lt l) : lt = l.getLast? := by
  rw [d.bwd.head_eq, List.head?_reverse]

theorem DList.next_iff_prev (d : DList nx pv hd lt l) (ha : a ∈ l) (hb : b ∈ l) :
    nx a = some b ↔ pv b = some a := by
  constructor
  · intro e
    obtain ⟨l₁, l₂, rfl⟩ := List.append_of_mem ha
    have e' := d.fwd.link
    rw [e] at e'
    cases l₂ with
    | nil => cases e'
    | cons c l₂ =>
      obtain rfl : b = c := Option.some.inj e'
      have hr : (l₁ ++ a :: b :: l₂).reverse = l₂.reverse ++ b :: (a :: l₁.reverse) := by simp
      have := d.bwd
      rw [hr] at this
      exact this.link
  · intro e
    obtain ⟨l₁, l₂, rfl⟩ := List.append_of_mem hb
    have hr : (l₁ ++ b :: l₂).reverse = l₂.reverse ++ b :: l₁.reverse := by simp
    have e' := d.bwd
    rw [hr] at e'
    have e'' := e'.link
    rw [e, List.head?_reverse] at e''
    obtain ⟨l₃, rfl⟩ : ∃ l₃, l₁ = l₃ ++ [a] := by
      rcases List.eq_nil_or_concat l₁ with rfl | ⟨l₃, c, rfl⟩
      · cases e''
      · simp only [List.concat_eq_append, List.getLast?_append, List.getLast?_singleton, Option.some_or,
          Option.some.injEq] at e''
        exact ⟨l₃, by simp [e'']⟩
    have := d.fwd
    rw [List.append_assoc] at this
    exact this.link

theorem DList.push_front (d : DList nx pv (some b) lt (b :: l)) (ha : a ∉ b :: l)
    (hn : nx' a = some b) (en : ∀ x ∈ b :: l, nx' x = nx x)
    (hp : pv' a = none) (hb : pv' b = some a) (ep : ∀ x ∈ l, pv' x = pv x) :
    DList nx' pv' (some a) lt (a :: b :: l) := by
  refine ⟨⟨rfl, ?_⟩, ?_, List.nodup_cons.mpr ⟨ha, d.nodup⟩⟩
  · rw [hn]; exact d.fwd.congr en
  · have hr : (a :: b :: l).reverse = l.reverse ++ [b, a] := by simp
    have hd := d.bwd
    rw [List.reverse_cons] at hd
    rw [hr]
    exact hd.snoc (fun x hx => ep x (List.mem_reverse.mp hx)) hb hp

theorem DList.push_back (d : DList nx pv hd (some b) (l ++ [b])) (ha : a ∉ l ++ [b])
    (hp : pv' a = some b) (ep : ∀ x ∈ l ++ [b], pv' x = pv x)
    (hn : nx' a = none) (hb : nx' b = some a) (en : ∀ x ∈ l, nx' x = nx x) :
    DList nx' pv' hd (some a) (l ++ [b, a]) := by
  apply DList.of_symm
  have hr : (l ++ [b]).reverse = b :: l.reverse := by simp
  have hr' : (l ++ [b, a]).reverse = a :: b :: l.reverse := by simp
  have hm : ∀ x, x ∈ b :: l.reverse → x ∈ l ++ [b] := by intro x hx; rw [← hr] at hx; exact List.mem_reverse.mp hx
  have ds := d.symm
  rw [hr] at ds
  rw [hr']
  exact ds.push_front (fun hx => ha (hm a hx)) hp (fun x hx => ep x (hm x hx)) hn hb
    fun x hx => en x (List.mem_reverse.mp hx)

theorem DList.pop_front (d : DList nx pv hd lt (a :: b :: l)) (en : ∀ x ∈ b :: l, nx' x = nx x)
    (hb : pv' b = none) (ep : ∀ x ∈ l, pv' x = pv x) : DList nx' pv' (some b) lt (b :: l) := by
  refine ⟨?_, ?_, (List.nodup_cons.mp d.nodup).2⟩
  · have := d.fwd.2
    rw [this.1] at this
    exact this.congr en
  · have hd := d.bwd
    have hr : (a :: b :: l).reverse = l.reverse ++ b :: [a] := by simp
    rw [hr] at hd
    rw [List.reverse_cons]
    exact hd.splice (fun x hx => ep x (List.mem_reverse.mp hx)) hb

theorem DList.pop_back (d : DList nx pv hd lt (l ++ [b, a])) (ep : ∀ x ∈ l ++ [b], pv' x = pv x)
    (hb : nx' b = none) (en : ∀ x ∈ l, nx' x = nx x) : DList nx' pv' hd (some b) (l ++ [b]) := by
  apply DList.of_symm
  have hr : (l ++ [b, a]).reverse = a :: b :: l.reverse := by simp
  have hr' : (l ++ [b]).reverse = b :: l.reverse := by simp
  have hm : ∀ x, x ∈ b :: l.reverse → x ∈ l ++ [b] := by intro x hx; rw [← hr'] at hx; exact List.mem_reverse.mp hx
  have ds := d.symm
  rw [hr] at ds
  rw [hr']
  exact ds.pop_front (fun x hx => ep x (hm x hx)) hb fun x hx => en x (List.mem_reverse.mp hx)

theorem DList.unlink (d : DList nx pv hd lt (l₁ ++ p :: a :: n :: l₂))
    (hn : nx' p = nx a) (en : ∀ x ∈ l₁ ++ n :: l₂, nx' x = nx x)
    (hp : pv' n = pv a) (ep : ∀ x ∈ l₁ ++ p :: l₂, pv' x = pv x) :
    DList nx' pv' hd lt (l₁ ++ p :: n :: l₂) := by
  have hsub : (l₁ ++ p :: n :: l₂).Sublist (l₁ ++ p :: a :: n :: l₂) :=
    (List.Sublist.refl l₁).append (((List.Sublist.refl (n :: l₂)).cons a).cons_cons p)
  refine ⟨?_, ?_, d.nodup.sublist hsub⟩
  · have ha : Chain nx (nx a) (n :: l₂) := by
      have := d.fwd
      rw [show l₁ ++ p :: a :: n :: l₂ = (l₁ ++ [p]) ++ a :: n :: l₂ by simp] at this
      exact this.after
    refine d.fwd.splice (fun x hx => en x (List.mem_append_left _ hx)) ?_
    rw [hn]
    exact ha.congr fun x hx => en x (List.mem_append_right _ hx)
  · have hr : (l₁ ++ p :: a :: n :: l₂).reverse = l₂.reverse ++ n :: a :: p :: l₁.reverse := by simp
    have hr' : (l₁ ++ p :: n :: l₂).reverse = l₂.reverse ++ n :: p :: l₁.reverse := by simp
    have hd := d.bwd
    rw [hr] at hd
    rw [hr']
    have ha : Chain pv (pv a) (p :: l₁.reverse) := by
      rw [show l₂.reverse ++ n :: a :: p :: l₁.reverse = (l₂.reverse ++ [n]) ++ a :: p :: l₁.reverse by simp] at hd
      exact hd.after
    refine hd.splice (fun x hx => ep x (by simp at hx; simp [hx])) ?_
    rw [hp]
    refine ha.congr fun x hx => ep x ?_
    simp only [List.mem_cons, List.mem_reverse] at hx
    rcases hx with rfl | hx
    · simp
    · simp [hx]

end Linked
