import Mathlib.Init

/-!
# Computations that may fail, and the states they reach

`Post r Q E`: the result `r` satisfies `Q` if it is a value and `E` if it is
an error. `Reach step ok s₀ s`: `s` is reached from `s₀` by steps that
satisfy `ok` and do not fail. `follow step f` runs an abstract state along.
-/

namespace Outcome

universe u

variable {ε σ : Type*} {α β : Type u}

def Post (r : Except ε α) (Q : α → Prop) (E : ε → Prop) : Prop :=
  match r with
  | .ok a => Q a
  | .error e => E e

variable {r : Except ε α} {k : α → Except ε β} {Q Q' : α → Prop} {E E' : ε → Prop} {a : α} {e : ε}

@[simp] theorem post_ok : Post (.ok a : Except ε α) Q E ↔ Q a := Iff.rfl

@[simp] theorem post_error : Post (.error e : Except ε α) Q E ↔ E e := Iff.rfl

theorem Post.mono (h : Post r Q E) (hQ : ∀ a, Q a → Q' a) (hE : ∀ e, E e → E' e) : Post r Q' E' := by
  cases r with
  | ok a => exact hQ a h
  | error e => exact hE e h

theorem Post.bind {R : β → Prop} (h : Post r Q E) (hk : ∀ a, r = .ok a → Q a → Post (k a) R E) :
    Post (r >>= k) R E := by
  cases r with
  | ok a => exact hk a rfl h
  | error e => exact h

theorem ok_bind (a : α) (k : α → Except ε β) : ((.ok a : Except ε α) >>= k) = k a := rfl

theorem Post.ok_of (h : Post r Q E) (hr : r = .ok a) : Q a := by subst hr; exact h

theorem Post.error_of (h : Post r Q E) (hr : r = .error e) : E e := by subst hr; exact h

instance [DecidablePred Q] [DecidablePred E] : Decidable (Post r Q E) :=
  match r with
  | .ok a => inferInstanceAs (Decidable (Q a))
  | .error e => inferInstanceAs (Decidable (E e))

theorem Post.eq_error (h : Post r (fun _ => False) (· = e)) : r = .error e := by
  cases r with
  | ok a => exact h.elim
  | error e' => exact congrArg Except.error h

theorem bind_eq_ok {b : β} : r >>= k = .ok b ↔ ∃ a, r = .ok a ∧ k a = .ok b := by
  cases r with
  | ok a => exact ⟨fun h => ⟨a, rfl, h⟩, fun ⟨a', h, h'⟩ => by cases h; exact h'⟩
  | error e => exact ⟨fun h => (by cases h), fun ⟨a', h, _⟩ => by cases h⟩

theorem bind_eq_error {e : ε} : r >>= k = .error e ↔ r = .error e ∨ ∃ a, r = .ok a ∧ k a = .error e := by
  cases r with
  | ok a =>
    refine ⟨fun h => Or.inr ⟨a, rfl, h⟩, ?_⟩
    rintro (h | ⟨a', h, h'⟩)
    · cases h
    · cases h; exact h'
  | error e' =>
    constructor
    · intro h; cases h; exact Or.inl rfl
    · rintro (h | ⟨a', h, _⟩)
      · cases h; rfl
      · cases h

/-! ## Reachable states -/

inductive Reach (step : σ → α → Except ε σ) (ok : σ → α → Prop) (s₀ : σ) : σ → Prop
  | refl : Reach step ok s₀ s₀
  | tail {s s' : σ} {a : α} : Reach step ok s₀ s → ok s a → step s a = .ok s' → Reach step ok s₀ s'

variable {step : σ → α → Except ε σ} {ok ok' : σ → α → Prop} {s₀ s s' : σ}

theorem Reach.invariant {I : σ → Prop} (h₀ : I s₀)
    (hs : ∀ s a s', I s → ok s a → step s a = .ok s' → I s') (h : Reach step ok s₀ s) : I s := by
  induction h with
  | refl => exact h₀
  | tail _ hok hst ih => exact hs _ _ _ ih hok hst

theorem Reach.weaken (h : Reach step ok s₀ s) (hw : ∀ s a, ok s a → ok' s a) : Reach step ok' s₀ s := by
  induction h with
  | refl => exact .refl
  | tail _ hok hst ih => exact ih.tail (hw _ _ hok) hst

theorem Reach.trans (h : Reach step ok s₀ s) (h' : Reach step ok s s') : Reach step ok s₀ s' := by
  induction h' with
  | refl => exact h
  | tail _ hok hst ih => exact ih.tail hok hst

theorem Reach.of_foldlM {l : List α} (hok : ∀ s, ∀ a ∈ l, ok s a) (h : l.foldlM step s₀ = .ok s) :
    Reach step ok s₀ s := by
  induction l generalizing s₀ with
  | nil =>
    obtain rfl := Except.ok.inj h
    exact .refl
  | cons a l ih =>
    rw [List.foldlM_cons] at h
    obtain ⟨s₁, h₁, h₂⟩ := bind_eq_ok.mp h
    have hhead := Reach.refl.tail (hok s₀ a List.mem_cons_self) h₁
    exact hhead.trans (ih (fun s a ha => hok s a (List.mem_cons_of_mem _ ha)) h₂)

/-- The steps `l` may be taken from the state, and lead to one with `Q`. -/
def leads (step : σ → α → Except ε σ) (ok : σ → α → Prop) [∀ s a, Decidable (ok s a)] (Q : σ → Prop) [DecidablePred Q] :
    List α → σ → Bool
  | [], s => decide (Q s)
  | a :: l, s => decide (ok s a) &&
    match step s a with
    | .ok s' => leads step ok Q l s'
    | .error _ => false

theorem Reach.of_leads [∀ s a, Decidable (ok s a)] {Q : σ → Prop} [DecidablePred Q] {l : List α}
    (h : leads step ok Q l s₀ = true) : ∃ s, Reach step ok s₀ s ∧ Q s := by
  induction l generalizing s₀ with
  | nil => exact ⟨s₀, .refl, of_decide_eq_true h⟩
  | cons a l ih =>
    simp only [leads, Bool.and_eq_true, decide_eq_true_eq] at h
    obtain ⟨hok, hl⟩ := h
    split at hl
    · rename_i s' hs
      obtain ⟨s, hr, hQ⟩ := ih hl
      exact ⟨s, (Reach.refl.tail hok hs).trans hr, hQ⟩
    · cases hl

/-! ## An abstract state that follows the run -/

variable {τ : Type*}

/-- `f s a s' t` is what becomes of the abstract state `t` when `a` leads from
`s` to `s'`. -/
def follow (step : σ → α → Except ε σ) (f : σ → α → σ → τ → τ) (x : σ × τ) (a : α) : Except ε (σ × τ) :=
  match step x.1 a with
  | .ok s' => .ok (s', f x.1 a s' x.2)
  | .error e => .error e

theorem follow_eq_ok {f : σ → α → σ → τ → τ} {x y : σ × τ} {a : α} :
    follow step f x a = .ok y ↔ ∃ s', step x.1 a = .ok s' ∧ y = (s', f x.1 a s' x.2) := by
  unfold follow
  cases step x.1 a with
  | ok s' => simp [eq_comm]
  | error e => simp

end Outcome
