import Os161.Lib.Outcome
import Os161.Menu
import Mathlib.Data.List.Forall2

/-!
# How the menu splits a line

`runs` is what splitting should give. `strtok_r` cuts off the first run and
leaves the others in the array behind its context. What is done to a piece
stays inside it and its terminator, so the pieces that follow are not touched.
-/

namespace Os161

open Outcome

/-! ## Maximal runs -/

def runs (sep : UInt8 → Bool) (l : List UInt8) : List (List UInt8) := (l.splitOnP sep).filter fun w => !w.isEmpty

section
variable {sep : UInt8 → Bool} {w l : List UInt8} {x : UInt8}

theorem runs_cons (hx : sep x = true) : runs sep (x :: l) = runs sep l := by
  unfold runs
  rw [List.splitOnP_cons_eq_if_modifyHead, if_pos hx]
  rfl

theorem runs_word (hw : ∀ ch ∈ w, sep ch = false) (hne : w ≠ []) : runs sep w = [w] := by
  unfold runs
  rw [List.splitOnP_eq_singleton hw]
  simp [hne]

theorem runs_append (hw : ∀ ch ∈ w, sep ch = false) (hne : w ≠ []) (hx : sep x = true) :
    runs sep (w ++ x :: l) = w :: runs sep l := by
  unfold runs
  rw [List.splitOnP_append_cons_of_forall_mem hw x hx]
  simp [hne]

theorem runs_dropWhile : runs sep (l.dropWhile sep) = runs sep l := by
  induction l with
  | nil => rfl
  | cons x l ih =>
    by_cases hx : sep x = true
    · rw [List.dropWhile_cons_of_pos hx, ih, runs_cons hx]
    · rw [List.dropWhile_cons_of_neg hx]

theorem runs_cases (sep : UInt8 → Bool) (l : List UInt8) :
    (l.dropWhile sep = [] ∧ runs sep l = []) ∨
      ∃ w after, l.dropWhile sep = w ++ after ∧ w ≠ [] ∧ (l.dropWhile sep).takeWhile (!sep ·) = w ∧
        ((after = [] ∧ runs sep l = [w]) ∨ ∃ x tl, after = x :: tl ∧ runs sep l = w :: runs sep tl) := by
  cases hrest : l.dropWhile sep with
  | nil => exact Or.inl ⟨rfl, by rw [← runs_dropWhile, hrest]; rfl⟩
  | cons ch rest =>
    have hch : sep ch = false := by
      have hhead := List.head?_dropWhile_not sep l
      rw [hrest] at hhead
      simpa using hhead
    have hne : (ch :: rest).takeWhile (!sep ·) ≠ [] := by
      rw [List.takeWhile_cons_of_pos (by simp [hch])]
      exact List.cons_ne_nil _ _
    have hword : ∀ c ∈ (ch :: rest).takeWhile (!sep ·), sep c = false := fun c hc => by
      simpa using List.mem_takeWhile_imp hc
    have hsplit : (ch :: rest).takeWhile (!sep ·) ++ (ch :: rest).dropWhile (!sep ·) = ch :: rest :=
      List.takeWhile_append_dropWhile
    refine Or.inr ⟨_, (ch :: rest).dropWhile (!sep ·), hsplit.symm, hne, rfl, ?_⟩
    rw [← runs_dropWhile (l := l), hrest]
    cases hafter : (ch :: rest).dropWhile (!sep ·) with
    | nil =>
      rw [hafter, List.append_nil] at hsplit
      rw [hsplit] at hword ⊢
      exact Or.inl ⟨rfl, runs_word hword (List.cons_ne_nil _ _)⟩
    | cons x tl =>
      have hx : sep x = true := by
        have hhead := List.head?_dropWhile_not (!sep ·) (ch :: rest)
        rw [hafter] at hhead
        simpa using hhead
      refine Or.inr ⟨x, tl, rfl, ?_⟩
      have hruns := runs_append (l := tl) hword hne hx
      rwa [← hafter, hsplit] at hruns

end

/-! ## Parts of the array -/

variable {buf buf' buf'' : List UInt8} {cs w post : List UInt8} {p a lo hi lo' hi' rounds : Nat}

structure SameOutside (buf buf' : List UInt8) (lo hi : Nat) : Prop where
  length : buf'.length = buf.length
  same : ∀ i, i < lo ∨ hi < i → buf'[i]? = buf[i]?

theorem SameOutside.refl : SameOutside buf buf lo hi := ⟨rfl, fun _ _ => rfl⟩

theorem SameOutside.trans (h : SameOutside buf buf' lo hi) (h' : SameOutside buf' buf'' lo hi) :
    SameOutside buf buf'' lo hi :=
  ⟨h'.length.trans h.length, fun i hi => (h'.same i hi).trans (h.same i hi)⟩

theorem SameOutside.mono (h : SameOutside buf buf' lo hi) (hlo : lo' ≤ lo) (hhi : hi ≤ hi') :
    SameOutside buf buf' lo' hi' :=
  ⟨h.length, fun i hi => h.same i (by omega)⟩

theorem SameOutside.set {i : Nat} {x : UInt8} (hlo : lo ≤ i) (hhi : i ≤ hi) : SameOutside buf (buf.set i x) lo hi :=
  ⟨List.length_set, fun j hj => List.getElem?_set_ne (by omega)⟩

theorem SameOutside.drop (h : SameOutside buf buf' lo hi) (hp : hi < p) : buf'.drop p = buf.drop p := by
  refine List.ext_getElem? fun i => ?_
  rw [List.getElem?_drop, List.getElem?_drop]
  exact h.same _ (by omega)

structure WordAt (buf : List UInt8) (a : Nat) (w : List UInt8) : Prop where
  chars : (buf.drop a).take (w.length + 1) = w ++ [0]
  noNul : 0 ∉ w

theorem WordAt.of_drop (h : buf.drop a = w ++ 0 :: post) (h0 : 0 ∉ w) : WordAt buf a w := by
  refine ⟨?_, h0⟩
  rw [h, List.take_append, List.take_of_length_le (Nat.le_succ _), Nat.add_sub_cancel_left]
  rfl

theorem WordAt.stringAt (h : WordAt buf a w) : (stringAt buf a).chars = w := by
  have hdrop : buf.drop a = w ++ 0 :: (buf.drop a).drop (w.length + 1) := by
    rw [← List.singleton_append, ← List.append_assoc, ← h.chars, List.take_append_drop]
  exact stringAt_drop hdrop h.noNul

theorem WordAt.keep (h : WordAt buf a w) (hs : SameOutside buf buf' lo hi) (ha : a + w.length < lo) :
    WordAt buf' a w := by
  refine ⟨Eq.trans (List.ext_getElem? fun i => ?_) h.chars, h.noNul⟩
  rw [List.getElem?_take, List.getElem?_take]
  split
  · rw [List.getElem?_drop, List.getElem?_drop, hs.same _ (by omega)]
  · rfl

/-! ## `strtok_r` -/

structure Left (buf : List UInt8) (context : Option Nat) (lo hi : Nat) (cs : List UInt8) : Prop where
  noNul : 0 ∉ cs
  place : (context = none ∧ cs = []) ∨
    ∃ p post, context = some p ∧ lo ≤ p ∧ p + cs.length = hi ∧ buf.drop p = cs ++ 0 :: post

theorem WordAt.left (h : WordAt buf a w) : Left buf (some a) a (a + w.length) w := by
  refine ⟨h.noNul, Or.inr ⟨a, (buf.drop a).drop (w.length + 1), rfl, Nat.le_refl a, rfl, ?_⟩⟩
  rw [← List.singleton_append, ← List.append_assoc, ← h.chars, List.take_append_drop]

theorem Left.keep {context : Option Nat} {k : Nat} (h : Left buf context lo hi cs) (hs : SameOutside buf buf' k hi')
    (hlo : hi' < lo) : Left buf' context lo hi cs := by
  refine ⟨h.noNul, h.place.imp_right ?_⟩
  rintro ⟨p, post, hp, hle, hend, hdrop⟩
  exact ⟨p, post, hp, hle, hend, (hs.drop (by omega)).trans hdrop⟩

theorem charAt_drop {ch : UInt8} (h : buf.drop p = ch :: post) : charAt buf p = .ok ch := by
  have hget : buf[p]? = some ch := by
    rw [← List.head?_drop, h]
    rfl
  unfold charAt
  rw [hget]

theorem scanWhile_drop {test t : UInt8 → Bool} (h : buf.drop p = cs ++ 0 :: post) (h0 : 0 ∉ cs)
    (hr : cs.length < rounds) (ht : ∀ ch, ch ≠ 0 → test ch = t ch) :
    scanWhile buf test rounds p = .ok (p + (cs.takeWhile t).length) := by
  induction cs generalizing p rounds with
  | nil =>
    obtain ⟨rounds, rfl⟩ := Nat.exists_eq_succ_of_ne_zero (Nat.ne_of_gt hr)
    rw [scanWhile, charAt_drop h]
    rfl
  | cons ch cs ih =>
    obtain ⟨rounds, rfl⟩ := Nat.exists_eq_succ_of_ne_zero (Nat.ne_of_gt (Nat.zero_lt_of_lt hr))
    rw [List.mem_cons, not_or] at h0
    have hch : ch ≠ 0 := fun he => h0.1 he.symm
    have hnext : buf.drop (p + 1) = cs ++ 0 :: post := by
      rw [← List.drop_drop, h]
      rfl
    rw [scanWhile, charAt_drop h, ok_bind, ht ch hch]
    by_cases hgo : t ch = true
    · rw [if_pos ⟨hch, hgo⟩, List.takeWhile_cons_of_pos hgo, ih hnext h0.2 (by simpa using hr), List.length_cons]
      congr 1
      omega
    · rw [if_neg (fun hc => hgo hc.2), List.takeWhile_cons_of_neg hgo]
      rfl

def isSep (seps : CString) (ch : UInt8) : Bool := seps.chars.contains ch

theorem strchr_isSome {seps : CString} {ch : UInt8} (hch : ch ≠ 0) : (strchr seps ch).isSome = isSep seps ch := by
  unfold strchr isSep
  cases hfind : seps.chars.findIdx? (· == ch) with
  | some i =>
    obtain ⟨hi, heq, -⟩ := List.findIdx?_eq_some_iff_getElem.mp hfind
    have hmem : ch ∈ seps.chars := by
      rw [← beq_iff_eq.mp heq]
      exact List.getElem_mem hi
    simp [hmem]
  | none =>
    have hnot : ch ∉ seps.chars := fun hmem => by simpa using List.findIdx?_eq_none_iff.mp hfind ch hmem
    simp [hch, hnot]

theorem strchr_isNone {seps : CString} {ch : UInt8} (hch : ch ≠ 0) : (strchr seps ch).isNone = !isSep seps ch := by
  rw [← strchr_isSome hch, Option.not_isSome]

theorem drop_add {k : Nat} (h : buf.drop p = cs ++ post) (hk : cs.length = k) : buf.drop (p + k) = post := by
  rw [← List.drop_drop, h, ← hk, List.drop_left]

theorem strtokR_spec (seps : CString) {string context : Option Nat} (h : Left buf (string.or context) lo hi cs) :
    (runs (isSep seps) cs = [] ∧ strtokR buf string seps context = .ok (none, none, buf)) ∨
      ∃ a w tl context' buf', strtokR buf string seps context = .ok (some a, context', buf') ∧
        runs (isSep seps) cs = w :: runs (isSep seps) tl ∧ WordAt buf' a w ∧ lo ≤ a ∧ a + w.length ≤ hi ∧
        tl.length < cs.length ∧ SameOutside buf buf' lo hi ∧ Left buf' context' (a + w.length + 1) hi tl := by
  unfold strtokR
  obtain ⟨hnone, rfl⟩ | ⟨p, post, hp, hlo, hend, hdrop⟩ := h.place
  · rw [hnone]
    exact Or.inl ⟨rfl, rfl⟩
  · rw [hp]
    dsimp only
    have hlen : cs.length < buf.length := by
      have hlength := congrArg List.length hdrop
      simp only [List.length_drop, List.length_append, List.length_cons] at hlength
      omega
    rw [scanWhile_drop hdrop h.noNul hlen fun ch => strchr_isSome, ok_bind]
    have hlead : cs.takeWhile (isSep seps) ++ cs.dropWhile (isSep seps) = cs := List.takeWhile_append_dropWhile
    have hhead : buf.drop (p + (cs.takeWhile (isSep seps)).length) = cs.dropWhile (isSep seps) ++ 0 :: post := by
      have hall : buf.drop p = cs.takeWhile (isSep seps) ++ (cs.dropWhile (isSep seps) ++ 0 :: post) := by
        rw [← List.append_assoc, hlead, hdrop]
      exact drop_add hall rfl
    have hlenlead := congrArg List.length hlead
    have hnul : 0 ∉ cs.dropWhile (isSep seps) := fun hmem => h.noNul ((List.dropWhile_suffix _).subset hmem)
    rw [List.length_append] at hlenlead
    generalize hheadEq : p + (cs.takeWhile (isSep seps)).length = head at hhead
    obtain ⟨hrest, hruns⟩ | ⟨w, after, hrest, hne, hw, hafter⟩ := runs_cases (isSep seps) cs
    · rw [hrest] at hhead
      rw [charAt_drop hhead, ok_bind, if_pos rfl]
      exact Or.inl ⟨hruns, rfl⟩
    · have hlenrest := congrArg List.length hrest
      rw [List.length_append] at hlenrest
      have hbody : buf.drop head = w ++ (after ++ 0 :: post) := by rw [hhead, hrest, List.append_assoc]
      have hwnul : 0 ∉ w := fun hmem => hnul (by rw [hrest]; exact List.mem_append_left _ hmem)
      have hchar : ∃ ch, charAt buf head = .ok ch ∧ ch ≠ 0 := by
        obtain ⟨ch, w', rfl⟩ := List.exists_cons_of_ne_nil hne
        exact ⟨ch, charAt_drop hbody, fun he => hwnul (he ▸ List.mem_cons_self)⟩
      obtain ⟨ch, hchar, hch⟩ := hchar
      have htail : buf.drop (head + w.length) = after ++ 0 :: post := drop_add hbody rfl
      rw [hchar, ok_bind, if_neg hch, scanWhile_drop hhead hnul (by omega) fun ch => strchr_isNone, hw, ok_bind]
      obtain ⟨rfl, hruns⟩ | ⟨x, tl, rfl, hruns⟩ := hafter
      · rw [List.length_nil] at hlenrest
        rw [charAt_drop htail, ok_bind, if_pos rfl]
        refine Or.inr ⟨head, w, [], none, buf, rfl, hruns, .of_drop hbody hwnul, by omega, by omega, ?_, .refl, ?_⟩
        · have hpos := List.length_pos_iff.mpr hne
          rw [List.length_nil]
          omega
        · exact ⟨List.not_mem_nil, Or.inl ⟨rfl, rfl⟩⟩
      · rw [List.length_cons] at hlenrest
        have hx : x ≠ 0 := fun he => hnul (by rw [hrest, he]; simp)
        have hset : (buf.set (head + w.length) 0).drop head = w ++ 0 :: (tl ++ 0 :: post) := by
          rw [List.drop_set, if_neg (by omega), hbody, Nat.add_sub_cancel_left,
            List.set_append_right _ _ (Nat.le_refl _), Nat.sub_self]
          rfl
        have hnext : (buf.set (head + w.length) 0).drop (head + w.length + 1) = tl ++ 0 :: post := by
          have hall : (buf.set (head + w.length) 0).drop head = (w ++ [0]) ++ (tl ++ 0 :: post) := by
            rw [hset, List.append_assoc]
            rfl
          rw [Nat.add_assoc]
          exact drop_add hall (by simp)
        rw [charAt_drop htail, ok_bind, if_neg hx]
        refine Or.inr ⟨head, w, tl, _, _, rfl, hruns, .of_drop hset hwnul, by omega, by omega, by omega,
          .set (by omega) (by omega), fun hmem => hnul ?_, Or.inr ⟨_, post, rfl, Nat.le_refl _, by omega, hnext⟩⟩
        rw [hrest]
        exact List.mem_append_right _ (List.mem_cons_of_mem x hmem)

/-! ## The words of a command -/

def words (l : List UInt8) : List (List UInt8) := runs (isSep blanks) l

def WordsAt (buf : List UInt8) (lo hi : Nat) (args : List Nat) (ws : List (List UInt8)) : Prop :=
  List.Forall₂ (fun a w => WordAt buf a w ∧ lo ≤ a ∧ a + w.length ≤ hi) args ws

theorem WordsAt.strings {args : List Nat} {ws : List (List UInt8)} (h : WordsAt buf lo hi args ws) :
    args.map (fun a => (stringAt buf a).chars) = ws := by
  unfold WordsAt at h
  induction h with
  | nil => rfl
  | cons hw _ ih => rw [List.map_cons, ih, hw.1.stringAt]

theorem WordsAt.mem {args : List Nat} {ws : List (List UInt8)} (h : WordsAt buf lo hi args ws) (ha : a ∈ args) :
    lo ≤ a ∧ a + strlen (stringAt buf a) ≤ hi := by
  unfold WordsAt at h
  induction h with
  | nil => cases ha
  | cons hw _ ih =>
    rcases List.mem_cons.mp ha with rfl | ha
    · unfold strlen
      rw [hw.1.stringAt]
      exact hw.2
    · exact ih ha

theorem gatherArgs_spec {string context : Option Nat} {args : List Nat} (h : Left buf (string.or context) lo hi cs)
    (hr : cs.length < rounds) (hargs : args.length ≤ maxmenuargs) :
    ∃ r buf', gatherArgs rounds buf string context args = .ok (r, buf') ∧ SameOutside buf buf' lo hi ∧
      if args.length + (words cs).length ≤ maxmenuargs then ∃ new, r = some (args ++ new) ∧
        WordsAt buf' lo hi new (words cs)
      else r = none := by
  induction rounds generalizing buf string context args lo cs with
  | zero => cases hr
  | succ rounds ih =>
    unfold gatherArgs
    obtain ⟨hruns, heq⟩ | ⟨a, w, tl, context', buf₁, heq, hruns, hw, hlo, hhi, hlen, hsame, hleft⟩ :=
      strtokR_spec blanks h
    · rw [heq, ok_bind]
      refine ⟨_, _, rfl, .refl, ?_⟩
      unfold words
      rw [hruns, if_pos (by simpa using hargs)]
      exact ⟨[], by rw [List.append_nil], .nil⟩
    · rw [heq, ok_bind]
      dsimp only
      unfold words
      rw [hruns, List.length_cons]
      by_cases hfull : args.length ≥ maxmenuargs
      · rw [if_pos hfull]
        refine ⟨_, _, rfl, hsame, ?_⟩
        rw [if_neg (by omega)]
      · have hstore : storeArg args a = .ok (args ++ [a]) := if_pos (Nat.lt_of_not_le hfull)
        have hleft' : Left buf₁ ((none : Option Nat).or context') (a + w.length + 1) hi tl := by rwa [Option.none_or]
        have hroom : (args ++ [a]).length ≤ maxmenuargs := by
          rw [List.length_append, List.length_singleton]
          omega
        obtain ⟨r, buf₂, hrec, hsame₂, hr₂⟩ := ih hleft' (by omega) hroom
        rw [if_neg hfull, hstore, ok_bind, hrec]
        refine ⟨_, _, rfl, hsame.trans (hsame₂.mono (by omega) (Nat.le_refl hi)), ?_⟩
        rw [List.length_append, List.length_singleton, Nat.add_assoc, Nat.add_comm 1] at hr₂
        by_cases hfit : args.length + ((runs (isSep blanks) tl).length + 1) ≤ maxmenuargs
        · rw [if_pos hfit]
          obtain ⟨new, hnew, hat⟩ := (if_pos hfit).mp hr₂
          refine ⟨a :: new, ?_, .cons ⟨hw.keep hsame₂ (Nat.lt_succ_self _), hlo, hhi⟩ ?_⟩
          · rw [hnew, List.append_assoc, List.singleton_append]
          · exact hat.imp fun b v hv => ⟨hv.1, by omega, hv.2.2⟩
        · rw [if_neg hfit]
          exact (if_neg hfit).mp hr₂

/-! ## Commands -/

/-- Entry `i` is the first with this name. -/
structure Cmdtable.Named (cmdtable : Cmdtable) (name : List UInt8) (i : Nat) (command : Command) : Prop where
  entry : ∃ e, cmdtable[i]? = some (e, command) ∧ e.chars = name
  first : ∀ j < i, ∀ x, cmdtable[j]? = some x → x.1.chars ≠ name

/-- What the menu does for a piece of the line. -/
inductive PieceLog (cmdtable : Cmdtable) (piece : List UInt8) : List MenuEvent → Prop
  | blank (hw : words piece = []) : PieceLog cmdtable piece [.dispatch piece]
  | tooMany (hlen : maxmenuargs < (words piece).length) :
      PieceLog cmdtable piece [.dispatch piece, .tooManyWords, .failed .e2big]
  | unknown {name : List UInt8} (hlen : (words piece).length ≤ maxmenuargs) (hname : (words piece).head? = some name)
      (hno : ∀ x ∈ cmdtable, x.1.chars ≠ name) :
      PieceLog cmdtable piece [.dispatch piece, .notFound name, .failed .einval]
  | call {name : List UInt8} {i : Nat} {command : Command} {buf : List UInt8} {args : List Nat}
      (hlen : (words piece).length ≤ maxmenuargs) (hname : (words piece).head? = some name)
      (hi : cmdtable.Named name i command) (hargs : args.map (fun a => (stringAt buf a).chars) = words piece) :
      PieceLog cmdtable piece
        (.dispatch piece :: .call i (words piece) :: (command.func buf args).2.toList.map .failed)

theorem words_ne_nil {l name : List UInt8} (h : name ∈ words l) : name ≠ [] := by
  have := (List.mem_filter.mp h).2
  simpa using this

theorem lookup_spec {name : List UInt8} (hname : name ≠ []) (i : Nat) (cmdtable : Cmdtable) :
    match cmdtable.lookup name i with
    | none => ∀ x ∈ cmdtable, x.1.chars ≠ name
    | some (k, command) => ∃ j, k = i + j ∧ cmdtable.Named name j command := by
  induction cmdtable generalizing i with
  | nil => exact fun x hx => absurd hx List.not_mem_nil
  | cons x cmdtable ih =>
    obtain ⟨entry, command⟩ := x
    unfold Cmdtable.lookup
    by_cases he : entry.chars ≠ [] ∧ name = entry.chars
    · rw [if_pos he]
      exact ⟨0, rfl, ⟨entry, rfl, he.2.symm⟩, fun j hj => absurd hj (Nat.not_lt_zero j)⟩
    · have hne : entry.chars ≠ name := fun e => he ⟨e ▸ hname, e.symm⟩
      rw [if_neg he]
      have := ih (i + 1)
      split at this
      · exact fun x hx => (List.mem_cons.mp hx).elim (fun e => e ▸ hne) (this x)
      · obtain ⟨j, rfl, hentry, hfirst⟩ := this
        refine ⟨j + 1, by omega, hentry, fun k hk x hx => ?_⟩
        cases k with
        | zero => rw [← Option.some.inj hx]; exact hne
        | succ k => exact hfirst k (Nat.lt_of_succ_lt_succ hk) x hx

theorem cmdDispatch_spec (cmdtable : Cmdtable) (h : WordAt buf a w) :
    ∃ result buf' events, cmdDispatch cmdtable buf a = .ok (result, buf', events) ∧
      PieceLog cmdtable w (.dispatch w :: (events ++ result.toList.map .failed)) ∧
      SameOutside buf buf' a (a + w.length) := by
  have hlen : w.length < buf.length + 1 := by
    have hlength := congrArg List.length h.chars
    simp only [List.length_take, List.length_drop, List.length_append, List.length_singleton] at hlength
    omega
  have hleft : Left buf ((some a).or none) a (a + w.length) w := h.left
  obtain ⟨r, buf₁, hgather, hsame, hr⟩ := gatherArgs_spec hleft hlen
    (show ([] : List Nat).length ≤ maxmenuargs from Nat.zero_le _)
  unfold cmdDispatch
  rw [hgather, ok_bind]
  rw [List.length_nil, Nat.zero_add] at hr
  by_cases hfit : (words w).length ≤ maxmenuargs
  · obtain ⟨args, hargs, hat⟩ := (if_pos hfit).mp hr
    rw [hargs, List.nil_append]
    cases args with
    | nil => exact ⟨_, _, _, rfl, .blank (List.forall₂_nil_left_iff.mp hat), hsame⟩
    | cons arg args =>
      have hstrings := hat.strings
      have hhead : (words w).head? = some (stringAt buf₁ arg).chars := by
        rw [← hstrings]
        rfl
      have hlook := lookup_spec (words_ne_nil (List.mem_of_head? hhead)) 0 cmdtable
      dsimp only
      split at hlook
      · rename_i hnone
        rw [hnone]
        exact ⟨_, _, _, rfl, .unknown hfit hhead hlook, hsame⟩
      · rename_i k command hsome
        rw [hsome]
        obtain ⟨i, rfl, hi⟩ := hlook
        rw [Nat.zero_add]
        refine ⟨_, _, _, rfl, ?_, hsame.trans ⟨command.length _ _, fun i hi => command.within _ _ _ fun b hb hin => ?_⟩⟩
        · have hcall := PieceLog.call hfit hhead hi hstrings
          rw [← hstrings] at hcall
          exact hcall
        · have hb := hat.mem hb
          have hin' : b ≤ i ∧ i ≤ b + strlen (stringAt buf₁ b) := hin
          omega
  · rw [(if_neg hfit).mp hr]
    exact ⟨_, _, _, rfl, .tooMany (Nat.lt_of_not_le hfit), hsame⟩

/-! ## The line -/

def pieces (l : List UInt8) : List (List UInt8) := runs (isSep semicolon) l

def LineLog (cmdtable : Cmdtable) (line : List UInt8) (log : List MenuEvent) : Prop :=
  ∃ logs, List.Forall₂ (PieceLog cmdtable) (pieces line) logs ∧ log = logs.flatten

theorem menuLoop_spec (cmdtable : Cmdtable) {string context : Option Nat} (h : Left buf (string.or context) lo hi cs)
    (hr : cs.length < rounds) :
    ∃ buf' log, menuLoop cmdtable false rounds buf string context = .ok (buf', log) ∧
      LineLog cmdtable cs log ∧ SameOutside buf buf' lo hi := by
  induction rounds generalizing buf string context lo cs with
  | zero => cases hr
  | succ rounds ih =>
    unfold menuLoop LineLog pieces
    obtain ⟨hruns, heq⟩ | ⟨a, w, tl, context', buf₁, heq, hruns, hw, hlo, hhi, hlen, hsame, hleft⟩ :=
      strtokR_spec semicolon h
    · rw [heq, ok_bind, hruns]
      exact ⟨_, _, rfl, ⟨[], .nil, rfl⟩, .refl⟩
    · obtain ⟨result, buf₂, events, hdispatch, hevents, hsame₂⟩ := cmdDispatch_spec cmdtable hw
      -- the command stays inside its piece, so the rest of the line is still there
      have hleft₂ : Left buf₂ ((none : Option Nat).or context') (a + w.length + 1) hi tl := by
        rw [Option.none_or]
        exact hleft.keep hsame₂ (Nat.lt_succ_self _)
      obtain ⟨buf₃, log, hrec, ⟨logs, hlogs, rfl⟩, hsame₃⟩ := ih hleft₂ (by omega)
      have hout : SameOutside buf buf₃ lo hi :=
        (hsame.trans (hsame₂.mono hlo hhi)).trans (hsame₃.mono (by omega) (Nat.le_refl hi))
      rw [heq, ok_bind]
      dsimp only
      rw [hdispatch, ok_bind]
      dsimp only
      rw [hw.stringAt, hruns]
      refine ⟨buf₃, .dispatch w :: (events ++ result.toList.map .failed) ++ logs.flatten, ?_,
        ⟨_ :: logs, .cons hevents hlogs, List.flatten_cons.symm⟩, hout⟩
      cases result with
      | none =>
        dsimp only
        rw [hrec, ok_bind]
        simp
      | some e =>
        dsimp only
        rw [if_neg Bool.false_ne_true, hrec, ok_bind]
        simp

/-- The menu dispatches the pieces of the line in order, each with its words, whatever the commands
do to their arguments: the first entry of the table with the name is called, a piece with no such
entry fails with EINVAL and one with too many words with E2BIG. Nothing but the line is touched. -/
theorem menuExecute_exact (cmdtable : Cmdtable) (before : List UInt8) (line : CString) (post : List UInt8) :
    ∃ buf' log, menuExecute cmdtable (before ++ line.chars ++ 0 :: post) before.length false = .ok (buf', log) ∧
      LineLog cmdtable line.chars log ∧
      SameOutside (before ++ line.chars ++ 0 :: post) buf' before.length (before.length + line.chars.length) := by
  have hleft : Left (before ++ line.chars ++ 0 :: post) ((some before.length).or none) before.length
      (before.length + line.chars.length) line.chars := by
    refine ⟨line.noNul, Or.inr ⟨before.length, post, rfl, Nat.le_refl _, rfl, ?_⟩⟩
    rw [List.append_assoc, List.drop_left]
  refine menuLoop_spec cmdtable hleft ?_
  simp only [List.length_append]
  omega

example : menuExecute [] [97, 32, 98, 59, 59, 32, 99, 0] 0 false = .ok ([97, 0, 98, 0, 59, 32, 99, 0],
    [.dispatch [97, 32, 98], .notFound [97], .failed .einval, .dispatch [32, 99], .notFound [99], .failed .einval]) :=
    rfl

end Os161
