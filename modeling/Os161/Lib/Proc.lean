import Mathlib.Init

/-!
# Procedures that return an error code or stop the machine

A procedure changes a state and returns a value or an error `ε`; a crash `κ`
ends the run and leaves no state. `wp p Q E K s`: from `s` the procedure `p`
ends in `Q` with a value, in `E` with an error, or in `K` with a crash.
-/

def Proc (σ ε κ α : Type) : Type := σ → Except κ (Except ε α × σ)

namespace Proc

variable {σ ε κ α β : Type}

instance : Monad (Proc σ ε κ) where
  pure a := fun s => .ok (.ok a, s)
  bind p f := fun s =>
    match p s with
    | .ok (.ok a, s') => f a s'
    | .ok (.error e, s') => .ok (.error e, s')
    | .error k => .error k

def throw (e : ε) : Proc σ ε κ α := fun s => .ok (.error e, s)

def crash (k : κ) : Proc σ ε κ α := fun _ => .error k

def get : Proc σ ε κ σ := fun s => .ok (.ok s, s)

def modify (f : σ → σ) : Proc σ ε κ Unit := fun s => .ok (.ok (), f s)

def attempt (p : Proc σ ε κ α) : Proc σ ε κ (Except ε α) := fun s =>
  match p s with
  | .ok (r, s') => .ok (.ok r, s')
  | .error k => .error k

def require (c : Prop) [Decidable c] (k : κ) : Proc σ ε κ Unit := if c then pure () else crash k

def zoom {τ : Type} (part : σ → τ) (put : σ → τ → σ) (p : Proc τ ε κ α) : Proc σ ε κ α := fun s =>
  match p (part s) with
  | .ok (r, t) => .ok (r, put s t)
  | .error k => .error k

def exec (p : Proc σ ε κ α) (s : σ) : Except κ σ :=
  match p s with
  | .ok (_, s') => .ok s'
  | .error k => .error k

theorem bind_ok {p : Proc σ ε κ α} {f : α → Proc σ ε κ β} {s s' : σ} {a : α} (h : p s = .ok (.ok a, s')) :
    (p >>= f) s = f a s' := by
  simp only [Bind.bind]
  rw [h]

/-! ## Weakest preconditions -/

def wp (p : Proc σ ε κ α) (Q : α → σ → Prop) (E : ε → σ → Prop) (K : κ → Prop) (s : σ) : Prop :=
  match p s with
  | .ok (.ok a, s') => Q a s'
  | .ok (.error e, s') => E e s'
  | .error k => K k

variable {p : Proc σ ε κ α} {f : α → Proc σ ε κ β} {Q Q' : α → σ → Prop} {R : β → σ → Prop} {E E' : ε → σ → Prop}
  {K K' : κ → Prop} {s : σ}

@[simp] theorem wp_pure (a : α) : wp (pure a : Proc σ ε κ α) Q E K s ↔ Q a s := Iff.rfl

@[simp] theorem wp_throw (e : ε) : wp (throw e : Proc σ ε κ α) Q E K s ↔ E e s := Iff.rfl

@[simp] theorem wp_crash (k : κ) : wp (crash k : Proc σ ε κ α) Q E K s ↔ K k := Iff.rfl

@[simp] theorem wp_get {Q : σ → σ → Prop} : wp (get : Proc σ ε κ σ) Q E K s ↔ Q s s := Iff.rfl

@[simp] theorem wp_modify {Q : Unit → σ → Prop} (f : σ → σ) : wp (modify f : Proc σ ε κ Unit) Q E K s ↔ Q () (f s) :=
  Iff.rfl

@[simp] theorem wp_bind : wp (p >>= f) R E K s ↔ wp p (fun a => wp (f a) R E K) E K s := by
  have hb : (p >>= f) s = match p s with
    | .ok (.ok a, s') => f a s'
    | .ok (.error e, s') => .ok (.error e, s')
    | .error k => .error k := rfl
  unfold wp
  rw [hb]
  cases p s with
  | error k => rfl
  | ok r =>
    obtain ⟨r, s'⟩ := r
    cases r <;> rfl

@[simp] theorem wp_attempt {Q : Except ε α → σ → Prop} :
    wp (attempt p) Q E K s ↔ wp p (fun a => Q (.ok a)) (fun e => Q (.error e)) K s := by
  unfold wp attempt
  cases p s with
  | error k => rfl
  | ok r =>
    obtain ⟨r, s'⟩ := r
    cases r <;> rfl

@[simp] theorem wp_zoom {τ : Type} {part : σ → τ} {put : σ → τ → σ} {p : Proc τ ε κ α} :
    wp (zoom part put p) Q E K s ↔ wp p (fun a t => Q a (put s t)) (fun e t => E e (put s t)) K (part s) := by
  unfold wp zoom
  cases p (part s) with
  | error k => rfl
  | ok r =>
    obtain ⟨r, t⟩ := r
    cases r <;> rfl

theorem wp_require {Q : Unit → σ → Prop} {c : Prop} [Decidable c] {k : κ} (h : c) :
    wp (require c k : Proc σ ε κ Unit) Q E K s ↔ Q () s := by
  rw [require, if_pos h, wp_pure]

theorem wp.mono (h : wp p Q E K s) (hQ : ∀ a s', Q a s' → Q' a s') (hE : ∀ e s', E e s' → E' e s')
    (hK : ∀ k, K k → K' k) : wp p Q' E' K' s := by
  unfold wp at h ⊢
  cases hp : p s with
  | error k =>
    rw [hp] at h
    exact hK k h
  | ok r =>
    rw [hp] at h
    obtain ⟨r, s'⟩ := r
    cases r with
    | error e => exact hE e s' h
    | ok a => exact hQ a s' h

theorem wp.imp (h : wp p Q E K s) (hQ : ∀ a s', Q a s' → Q' a s') : wp p Q' E K s :=
  h.mono hQ (fun _ _ he => he) fun _ hk => hk

theorem wp.always (h : wp p Q (fun _ _ => False) (fun _ => False) s) (hQ : ∀ a s', Q a s' → Q' a s') : wp p Q' E K s :=
  h.mono hQ (fun _ _ he => he.elim) fun _ hk => hk.elim

theorem wp_congr (h : ∀ a s', Q a s' ↔ Q' a s') : wp p Q E K s ↔ wp p Q' E K s :=
  ⟨fun hp => hp.imp fun a s' => (h a s').mp, fun hp => hp.imp fun a s' => (h a s').mpr⟩

theorem wp.bind (h : wp p Q E K s) (hf : ∀ a s', Q a s' → wp (f a) R E' K s') (hE : ∀ e s', E e s' → E' e s') :
    wp (p >>= f) R E' K s :=
  wp_bind.mpr (h.mono hf hE fun _ hk => hk)

theorem wp.returns (h : wp p Q (fun _ _ => False) (fun _ => False) s) : ∃ a s', p s = .ok (.ok a, s') ∧ Q a s' := by
  unfold wp at h
  cases hp : p s with
  | error k =>
    rw [hp] at h
    exact h.elim
  | ok r =>
    obtain ⟨r, s'⟩ := r
    rw [hp] at h
    cases r with
    | error e => exact h.elim
    | ok a => exact ⟨a, s', rfl, h⟩

theorem wp.and (h : wp p Q E K s) (h' : wp p Q' E' K' s) :
    wp p (fun a s' => Q a s' ∧ Q' a s') (fun e s' => E e s' ∧ E' e s') (fun k => K k ∧ K' k) s := by
  unfold wp at *
  cases hp : p s with
  | error k =>
    rw [hp] at h h'
    exact ⟨h, h'⟩
  | ok r =>
    obtain ⟨r, s'⟩ := r
    rw [hp] at h h'
    cases r <;> exact ⟨h, h'⟩

theorem wp.ok {a : α} {s' : σ} (h : wp p Q E K s) (hp : p s = .ok (.ok a, s')) : Q a s' := by
  unfold wp at h
  rwa [hp] at h

theorem wp.error {e : ε} {s' : σ} (h : wp p Q E K s) (hp : p s = .ok (.error e, s')) : E e s' := by
  unfold wp at h
  rwa [hp] at h

/-! ## Before and after -/

/-- However `p` ends, the state after it is related to the one before. -/
def Keeps (R : σ → σ → Prop) (p : Proc σ ε κ α) : Prop := ∀ s, wp p (fun _ => R s) (fun _ => R s) (fun _ => True) s

variable {R : σ → σ → Prop}

theorem Keeps.pure (hr : ∀ s, R s s) (a : α) : Keeps R (pure a : Proc σ ε κ α) := hr

theorem Keeps.throw (hr : ∀ s, R s s) (e : ε) : Keeps R (throw e : Proc σ ε κ α) := hr

theorem Keeps.crash (k : κ) : Keeps R (crash k : Proc σ ε κ α) := fun _ => trivial

theorem Keeps.get (hr : ∀ s, R s s) : Keeps R (get : Proc σ ε κ σ) := hr

theorem Keeps.require (hr : ∀ s, R s s) (c : Prop) [Decidable c] (k : κ) : Keeps R (require c k : Proc σ ε κ Unit) := by
  unfold Proc.require
  split
  · exact .pure hr ()
  · exact .crash k

theorem Keeps.attempt (hp : Keeps R p) : Keeps R (attempt p) := by
  intro s
  rw [wp_attempt]
  exact hp s

theorem Keeps.ite {c : Prop} [Decidable c] {q : Proc σ ε κ α} (hp : Keeps R p) (hq : Keeps R q) :
    Keeps R (if c then p else q) := by
  split
  · exact hp
  · exact hq

theorem Keeps.bind (ht : ∀ s s' s'', R s s' → R s' s'' → R s s'') (hp : Keeps R p) (hf : ∀ a, Keeps R (f a)) :
    Keeps R (p >>= f) := by
  intro s
  refine (hp s).bind (fun a s' h => ?_) fun _ _ h => h
  exact (hf a s').mono (fun _ s'' h' => ht s s' s'' h h') (fun _ s'' h' => ht s s' s'' h h') fun _ h => h

end Proc
