import Os161.Bitmap
import Os161.Sfs
import Os161.Lib.Bits
import Os161.Lib.Outcome
import Mathlib.Data.Finset.Insert
import Mathlib.Data.Finset.Range
import Mathlib.Order.Bounds.Basic

/-!
# A bitmap is a set of indices

`Bitmap.marked` is the set of indices below `nbits` whose bit is set. The
scan of `bitmap_alloc` goes by words and does not look at `nbits`, so it
relies on the bits past `nbits` of the last word being set.
-/

namespace Os161

open Outcome Bits

variable {b b' : Bitmap} {w : BitVec 8} {i j ix nbits : Nat}

def Bitmap.marked (b : Bitmap) : Finset Nat := (Finset.range b.nbits).filter fun i => bit b.v i = true

theorem Bitmap.mem_marked : i ∈ b.marked ↔ i < b.nbits ∧ bit b.v i = true := by
  simp only [Bitmap.marked, Finset.mem_filter, Finset.mem_range]

structure Bitmap.Ok (b : Bitmap) : Prop where
  small : b.nbits + 7 < 2 ^ 32
  length : b.v.length = divRoundUp32 b.nbits bitsPerWord
  padding : ∀ i, b.nbits ≤ i → i < 8 * b.v.length → bit b.v i = true

theorem divRoundUp32_eq (hn : nbits + 7 < 2 ^ 32) : divRoundUp32 nbits bitsPerWord = (nbits + 7) / 8 := by
  unfold divRoundUp32 bitsPerWord
  omega

theorem word_eq (hw : b.v[ix]? = some w) : b.word ix = .ok w := by
  unfold Bitmap.word
  rw [hw]

theorem Bitmap.Ok.exists_word (h : b.Ok) (hi : i < b.nbits) : ∃ w, b.v[i / 8]? = some w := by
  have hlen := h.length
  rw [divRoundUp32_eq h.small] at hlen
  exact ⟨_, List.getElem?_eq_getElem (by omega)⟩

/-! ## One word of the map -/

theorem bit_setWord (hw : b.v[i / 8]? = some w) :
    bit (b.setWord (i / 8) (w ||| 1#8 <<< (i % 8))).v j = (bit b.v j || decide (j = i)) :=
  bit_set_mask (by decide) hw

theorem bit_clearWord (hw : b.v[i / 8]? = some w) :
    bit (b.setWord (i / 8) (w &&& ~~~(1#8 <<< (i % 8)))).v j = (bit b.v j && decide (j ≠ i)) :=
  bit_clear_mask (by decide) hw

theorem Bitmap.Ok.setWord (h : b.Ok) (hpad : ∀ j, b.nbits ≤ j → bit b.v j = true → bit (b.setWord ix w).v j = true) :
    (b.setWord ix w).Ok := by
  have hlen : (b.setWord ix w).v.length = b.v.length := List.length_set
  refine ⟨h.small, hlen.trans h.length, fun j hj hlt => ?_⟩
  rw [hlen] at hlt
  exact hpad j hj (h.padding j hj hlt)

theorem Bitmap.Ok.insert (h : b.Ok) (hi : i < b.nbits) (hw : b.v[i / 8]? = some w) :
    (b.setWord (i / 8) (w ||| 1#8 <<< (i % 8))).Ok ∧
      (b.setWord (i / 8) (w ||| 1#8 <<< (i % 8))).marked = Insert.insert i b.marked := by
  refine ⟨h.setWord fun j _ hj => ?_, ?_⟩
  · rw [bit_setWord hw, hj, Bool.true_or]
  · ext j
    rw [Finset.mem_insert, Bitmap.mem_marked, Bitmap.mem_marked, bit_setWord hw, Bool.or_eq_true, decide_eq_true_eq]
    constructor
    · rintro ⟨hj, hbit | rfl⟩
      · exact Or.inr ⟨hj, hbit⟩
      · exact Or.inl rfl
    · rintro (rfl | ⟨hj, hbit⟩)
      · exact ⟨hi, Or.inr rfl⟩
      · exact ⟨hj, Or.inl hbit⟩

theorem Bitmap.Ok.erase (h : b.Ok) (hi : i < b.nbits) (hw : b.v[i / 8]? = some w) :
    (b.setWord (i / 8) (w &&& ~~~(1#8 <<< (i % 8)))).Ok ∧
      (b.setWord (i / 8) (w &&& ~~~(1#8 <<< (i % 8)))).marked = b.marked.erase i := by
  refine ⟨h.setWord fun j hj hbit => ?_, ?_⟩
  · rw [bit_clearWord hw, hbit, Bool.true_and, decide_eq_true_eq]
    omega
  · ext j
    rw [Finset.mem_erase, Bitmap.mem_marked, Bitmap.mem_marked, bit_clearWord hw, Bool.and_eq_true, decide_eq_true_eq]
    tauto

/-! ## The scan -/

theorem findOffset_spec {rounds offset : Nat} (hr : offset + rounds = 8) (hset : ∀ k < offset, w.getLsbD k = true) :
    (findOffset w rounds offset = none ∧ ∀ k < 8, w.getLsbD k = true) ∨
      ∃ o < 8, findOffset w rounds offset = some o ∧ w.getLsbD o = false ∧ ∀ k < o, w.getLsbD k = true := by
  induction rounds generalizing offset with
  | zero => exact Or.inl ⟨rfl, fun k hk => hset k (by omega)⟩
  | succ rounds ih =>
    unfold findOffset
    have hlt : offset < 8 := by omega
    by_cases hbit : w.getLsbD offset = true
    · rw [if_neg (by rw [and_mask_eq_zero hlt, hbit]; nofun)]
      refine ih (by omega) fun k hk => ?_
      rcases Nat.lt_succ_iff_lt_or_eq.mp hk with hk | rfl
      · exact hset k hk
      · exact hbit
    · rw [Bool.not_eq_true] at hbit
      rw [if_pos ((and_mask_eq_zero hlt).mpr hbit)]
      exact Or.inr ⟨offset, hlt, rfl, hbit, hset⟩

structure Bitmap.Allocated (b : Bitmap) (r : Except BitmapFault (Option Nat × Bitmap)) : Prop where
  spec : (b.marked = Finset.range b.nbits ∧ r = .ok (none, b)) ∨
    ∃ i b', r = .ok (some i, b') ∧ IsLeast {j | j < b.nbits ∧ j ∉ b.marked} i ∧ b'.marked = insert i b.marked ∧
      b'.nbits = b.nbits ∧ b'.Ok

theorem Bitmap.Ok.allocLoop (h : b.Ok) {rounds : Nat} (hr : ix + rounds = b.v.length)
    (hset : ∀ j < 8 * ix, bit b.v j = true) : b.Allocated (b.allocLoop rounds ix) := by
  induction rounds generalizing ix with
  | zero =>
    refine ⟨Or.inl ⟨?_, rfl⟩⟩
    have hlen := h.length
    rw [divRoundUp32_eq h.small] at hlen
    ext j
    rw [Bitmap.mem_marked, Finset.mem_range]
    exact ⟨And.left, fun hj => ⟨hj, hset j (by omega)⟩⟩
  | succ rounds ih =>
    unfold Bitmap.allocLoop
    obtain ⟨w, hw⟩ : ∃ w, b.v[ix]? = some w := ⟨_, List.getElem?_eq_getElem (by omega)⟩
    have hbit : ∀ k < 8, bit b.v (8 * ix + k) = w.getLsbD k := by
      intro k hk
      rw [bit_of_getElem? (x := w), show (8 * ix + k) % 8 = k by omega]
      rwa [show (8 * ix + k) / 8 = ix by omega]
    rw [word_eq hw, ok_bind]
    by_cases hall : w = wordAllbits
    · rw [if_neg (fun hne => hne hall)]
      refine ih (by omega) fun j hj => ?_
      by_cases hlt : j < 8 * ix
      · exact hset j hlt
      · have hk := hbit (j - 8 * ix) (by omega)
        rw [show 8 * ix + (j - 8 * ix) = j by omega] at hk
        rw [hk]
        exact eq_allOnes_iff.mp (show w = BitVec.allOnes 8 from hall) _ (by omega)
    · rw [if_pos hall]
      obtain ⟨-, hfull⟩ | ⟨o, ho, heq, hclear, hbefore⟩ := findOffset_spec (w := w) (Nat.zero_add 8) nofun
      · exact absurd (eq_allOnes_iff.mpr hfull) hall
      · rw [show findOffset w bitsPerWord 0 = some o from heq]
        dsimp only
        have hindex : bit b.v (8 * ix + o) = false := (hbit o ho).trans hclear
        -- a clear bit is not padding
        have hlt : 8 * ix + o < b.nbits := by
          refine Nat.lt_of_not_le fun hle => ?_
          rw [h.padding _ hle (by omega)] at hindex
          cases hindex
        rw [if_pos (by unfold bitsPerWord; omega), show ix * bitsPerWord + o = 8 * ix + o by unfold bitsPerWord; omega]
        have hdiv : (8 * ix + o) / 8 = ix := by omega
        have hmod : (8 * ix + o) % 8 = o := by omega
        obtain ⟨hok, hmarked⟩ := h.insert hlt (w := w) (by rw [hdiv]; exact hw)
        rw [hdiv, hmod] at hok hmarked
        refine ⟨Or.inr ⟨_, _, rfl, ⟨⟨hlt, fun hm => ?_⟩, fun j hj => ?_⟩, hmarked, rfl, hok⟩⟩
        · rw [(Bitmap.mem_marked.mp hm).2] at hindex
          cases hindex
        · refine Nat.le_of_not_lt fun hjlt => hj.2 (Bitmap.mem_marked.mpr ⟨hj.1, ?_⟩)
          by_cases hjx : j < 8 * ix
          · exact hset j hjx
          · have hk := hbit (j - 8 * ix) (by omega)
            rw [show 8 * ix + (j - 8 * ix) = j by omega] at hk
            rw [hk]
            exact hbefore _ (by omega)

theorem Bitmap.Ok.alloc (h : b.Ok) : b.Allocated b.alloc :=
  h.allocLoop (by rw [h.length, Nat.zero_add]) fun j hj => absurd hj (Nat.not_lt_zero j)

theorem Bitmap.Ok.alloc_eq (h : b.Ok) : b.alloc.map Prod.fst = .ok (bitmapAlloc (bit b.v) b.nbits) := by
  obtain ⟨hfull, heq⟩ | ⟨i, b', heq, hleast, -⟩ := h.alloc.spec
  · rw [heq]
    refine congrArg Except.ok (Eq.symm (List.find?_eq_none.mpr fun j hj => ?_))
    have hmem := Finset.mem_range.mpr (List.mem_range.mp hj)
    rw [← hfull] at hmem
    simp [(Bitmap.mem_marked.mp hmem).2]
  · rw [heq]
    refine congrArg Except.ok (Eq.symm (List.find?_range_eq_some.mpr ⟨?_, ?_, fun j hj => ?_⟩))
    · have hclear := hleast.1.2
      rw [Bitmap.mem_marked] at hclear
      simpa using fun hbit => hclear ⟨hleast.1.1, hbit⟩
    · exact List.mem_range.mpr hleast.1.1
    · have hset : j ∈ b.marked := by
        by_contra hnot
        exact absurd (hleast.2 ⟨Nat.lt_trans hj hleast.1.1, hnot⟩) (Nat.not_le.mpr hj)
      simp [(Bitmap.mem_marked.mp hset).2]

/-! ## Marking -/

theorem Bitmap.Ok.mark (h : b.Ok) (hi : i < b.nbits) (hm : i ∉ b.marked) :
    ∃ b', b.mark i = .ok b' ∧ b'.marked = Insert.insert i b.marked ∧ b'.nbits = b.nbits ∧ b'.Ok := by
  obtain ⟨w, hw⟩ := h.exists_word hi
  have hclear : w.getLsbD (i % 8) = false := by
    rw [← bit_of_getElem? hw, ← Bool.not_eq_true]
    exact fun hbit => hm (Bitmap.mem_marked.mpr ⟨hi, hbit⟩)
  obtain ⟨hok, hmarked⟩ := h.insert hi hw
  refine ⟨_, ?_, hmarked, rfl, hok⟩
  unfold Bitmap.mark bitmapTranslate bitsPerWord
  rw [if_pos hi]
  dsimp only
  rw [word_eq hw, ok_bind, if_pos ((and_mask_eq_zero (Nat.mod_lt i (by decide))).mpr hclear)]

theorem Bitmap.Ok.unmark (h : b.Ok) (hm : i ∈ b.marked) :
    ∃ b', b.unmark i = .ok b' ∧ b'.marked = b.marked.erase i ∧ b'.nbits = b.nbits ∧ b'.Ok := by
  obtain ⟨hi, hbit⟩ := Bitmap.mem_marked.mp hm
  obtain ⟨w, hw⟩ := h.exists_word hi
  obtain ⟨hok, hmarked⟩ := h.erase hi hw
  refine ⟨_, ?_, hmarked, rfl, hok⟩
  have hne : ¬ w &&& 1#8 <<< (i % 8) = 0#8 := by
    rw [and_mask_eq_zero (Nat.mod_lt i (by decide)), ← bit_of_getElem? hw, hbit]
    nofun
  unfold Bitmap.unmark bitmapTranslate bitsPerWord
  rw [if_pos hi]
  dsimp only
  rw [word_eq hw, ok_bind, if_pos hne]

theorem Bitmap.Ok.isset (h : b.Ok) (hi : i < b.nbits) : ∃ r, b.isset i = .ok r ∧ (r ≠ 0#8 ↔ i ∈ b.marked) := by
  obtain ⟨w, hw⟩ := h.exists_word hi
  refine ⟨w &&& 1#8 <<< (i % 8), ?_, ?_⟩
  · unfold Bitmap.isset bitmapTranslate bitsPerWord
    dsimp only
    rw [word_eq hw, ok_bind]
  · rw [ne_eq, and_mask_eq_zero (Nat.mod_lt i (by decide)), ← bit_of_getElem? hw, Bool.not_eq_false, Bitmap.mem_marked]
    exact ⟨fun hbit => ⟨hi, hbit⟩, And.right⟩

/-! ## A new bitmap -/

theorem getLsbD_markLeftover {n o k : Nat} (hn : o + n ≤ 8) :
    ((List.range' o n).foldl (fun w j => w ||| 1#8 <<< j) w).getLsbD k =
    (w.getLsbD k || decide (o ≤ k ∧ k < o + n)) := by
  induction n generalizing w o with
  | zero => simp
  | succ n ih =>
    rw [List.range'_succ, List.foldl_cons, ih (by omega), BitVec.getLsbD_or, getLsbD_mask (by omega), Bool.or_assoc]
    congr 1
    rw [← Bool.decide_or, decide_eq_decide]
    omega

theorem bit_replicate {n : Nat} : bit (List.replicate n 0#8) i = false := by
  unfold bit
  rw [List.getD_eq_getElem?_getD, List.getElem?_replicate]
  by_cases hi : i / 8 < n <;> simp [hi]

theorem bitmapCreate_ok (hn : nbits + 7 < 2 ^ 32) :
    ∃ b, Bitmap.create nbits true true = .ok (some b) ∧ b.Ok ∧ b.marked = ∅ ∧ b.nbits = nbits := by
  unfold Bitmap.create
  dsimp only
  rw [if_pos (show (true && true) = true from rfl), divRoundUp32_eq hn]
  by_cases hover : nbits / bitsPerWord < (nbits + 7) / 8
  · have hdiv : nbits / 8 < (nbits + 7) / 8 := hover
    set words := (nbits + 7) / 8 with hwords
    have hlast : (List.replicate words 0#8)[words - 1]? = some 0#8 := by
      rw [List.getElem?_replicate, if_pos (by omega)]
    have hbit : ∀ j, bit ((List.replicate words 0#8).set (words - 1)
      (markLeftover 0#8 (nbits - (words - 1) * bitsPerWord))) j =
        decide (nbits ≤ j ∧ j < 8 * words) := by
      intro j
      rw [bit_set (by rw [List.length_replicate]; omega), bit_replicate]
      unfold markLeftover bitsPerWord
      rw [getLsbD_markLeftover (by omega), BitVec.getLsbD_zero, Bool.false_or]
      by_cases hj : j / 8 = words - 1
      · rw [if_pos hj, decide_eq_decide]
        omega
      · rw [if_neg hj, eq_comm, decide_eq_false_iff_not]
        omega
    rw [if_pos hover, if_pos ⟨by unfold bitsPerWord; omega, by unfold bitsPerWord; omega, by unfold bitsPerWord; omega⟩,
      word_eq hlast, ok_bind]
    refine ⟨_, rfl, ⟨hn, ?_, fun j hj hlt => ?_⟩, ?_, rfl⟩
    · dsimp only [Bitmap.setWord]
      rw [List.length_set, List.length_replicate, divRoundUp32_eq hn]
    · rw [Bitmap.setWord, List.length_set, List.length_replicate] at hlt
      exact (hbit j).trans (decide_eq_true ⟨hj, hlt⟩)
    · refine Finset.eq_empty_of_forall_notMem fun j hj => ?_
      obtain ⟨hlt, hset⟩ := Bitmap.mem_marked.mp hj
      have hle := of_decide_eq_true ((hbit j).symm.trans hset)
      exact absurd hle.1 (Nat.not_le.mpr hlt)
  · rw [if_neg hover]
    unfold bitsPerWord at hover
    refine ⟨_, rfl, ⟨hn, ?_, fun j hj hlt => ?_⟩, ?_, rfl⟩
    · rw [divRoundUp32_eq hn, List.length_replicate]
    · rw [List.length_replicate] at hlt
      dsimp only at hj
      omega
    · refine Finset.eq_empty_of_forall_notMem fun j hj => ?_
      rw [Bitmap.mem_marked, bit_replicate] at hj
      cases hj.2

/-! ## Sequences of calls -/

def Bitmap.Respects (b : Bitmap) : BitmapCall → Prop
  | .alloc => True
  | .mark index => index < b.nbits ∧ index ∉ b.marked
  | .unmark index => index ∈ b.marked

structure Bitmap.Exact (b : Bitmap) : Prop where
  alloc : (b.marked = Finset.range b.nbits ∧ b.alloc = .ok (none, b)) ∨
    ∃ i b', b.alloc = .ok (some i, b') ∧ IsLeast {j | j < b.nbits ∧ j ∉ b.marked} i ∧ b'.marked = insert i b.marked
  mark : ∀ i < b.nbits, i ∉ b.marked → ∃ b', b.mark i = .ok b' ∧ b'.marked = insert i b.marked
  unmark : ∀ i ∈ b.marked, ∃ b', b.unmark i = .ok b' ∧ b'.marked = b.marked.erase i
  isset : ∀ i < b.nbits, ∃ r, b.isset i = .ok r ∧ (r ≠ 0#8 ↔ i ∈ b.marked)
  padding : ∀ i, b.nbits ≤ i → i < 8 * b.v.length → bit b.v i = true

theorem Bitmap.Ok.exact (h : b.Ok) : b.Exact := by
  refine ⟨?_, fun i hi hm => ?_, fun i hm => ?_, fun i hi => h.isset hi, h.padding⟩
  · obtain hfull | ⟨i, b', heq, hleast, hmarked, -⟩ := h.alloc.spec
    · exact Or.inl hfull
    · exact Or.inr ⟨i, b', heq, hleast, hmarked⟩
  · obtain ⟨b', heq, hmarked, -⟩ := h.mark hi hm
    exact ⟨b', heq, hmarked⟩
  · obtain ⟨b', heq, hmarked, -⟩ := h.unmark hm
    exact ⟨b', heq, hmarked⟩

theorem Bitmap.Ok.step (h : b.Ok) {c : BitmapCall} (hc : b.Respects c) (hs : bitmapStep b c = .ok b') :
    b'.Ok ∧ b'.nbits = b.nbits := by
  cases c with
  | alloc =>
    unfold bitmapStep at hs
    obtain ⟨-, heq⟩ | ⟨i, b₁, heq, -, -, hnbits, hok⟩ := h.alloc.spec
    · rw [heq, ok_bind] at hs
      obtain rfl := Except.ok.inj hs
      exact ⟨h, rfl⟩
    · rw [heq, ok_bind] at hs
      obtain rfl := Except.ok.inj hs
      exact ⟨hok, hnbits⟩
  | mark i =>
    obtain ⟨b₁, heq, -, hnbits, hok⟩ := h.mark hc.1 hc.2
    obtain rfl := Except.ok.inj (heq.symm.trans hs)
    exact ⟨hok, hnbits⟩
  | unmark i =>
    obtain ⟨b₁, heq, -, hnbits, hok⟩ := h.unmark hc
    obtain rfl := Except.ok.inj (heq.symm.trans hs)
    exact ⟨hok, hnbits⟩

theorem bitmapCreate_wraps (hn : nbits < 2 ^ 32) (hwrap : 2 ^ 32 ≤ nbits + 7) :
    Bitmap.create nbits true true = .ok (some { nbits := nbits, v := [] }) ∧
      ({ nbits := nbits, v := [] } : Bitmap).alloc = .ok (none, { nbits := nbits, v := [] }) := by
  have hwords : divRoundUp32 nbits bitsPerWord = 0 := by
    unfold divRoundUp32 bitsPerWord
    omega
  constructor
  · unfold Bitmap.create
    dsimp only
    rw [hwords, if_pos (show (true && true) = true from rfl), if_neg (Nat.not_lt_zero _)]
    rfl
  · unfold Bitmap.alloc
    rw [hwords]
    rfl

theorem marked_nil : ({ nbits := nbits, v := [] } : Bitmap).marked = ∅ := by
  refine Finset.eq_empty_of_forall_notMem fun j hj => ?_
  have hbit := (Bitmap.mem_marked.mp hj).2
  simp [bit] at hbit

/-- In every state that calls respecting their assertions lead to, the calls act on the set of marked
indices as they should, exactly if the size can be rounded up to words. -/
theorem bitmap_exact_iff (hn : nbits < 2 ^ 32) :
    (∃ b₀, Bitmap.create nbits true true = .ok (some b₀) ∧ b₀.marked = ∅ ∧
      ∀ b, Reach bitmapStep Bitmap.Respects b₀ b → b.nbits = nbits ∧ b.Exact) ↔ nbits + 7 < 2 ^ 32 := by
  constructor
  · rintro ⟨b₀, hcreate, hempty, hrun⟩
    refine Nat.lt_of_not_le fun hwrap => ?_
    obtain ⟨heq, halloc⟩ := bitmapCreate_wraps hn hwrap
    obtain rfl := Option.some.inj (Except.ok.inj (heq.symm.trans hcreate))
    obtain ⟨hfull, -⟩ | ⟨i, b', heq', -⟩ := (hrun _ .refl).2.alloc
    · rw [hempty] at hfull
      have hmem := Finset.mem_range.mpr (show 0 < nbits by omega)
      rw [← hfull] at hmem
      simp at hmem
    · rw [halloc] at heq'
      cases heq'
  · intro hsmall
    obtain ⟨b₀, hcreate, hok, hempty, hnbits⟩ := bitmapCreate_ok hsmall
    refine ⟨b₀, hcreate, hempty, fun b hb => ?_⟩
    have hinv : b.Ok ∧ b.nbits = nbits := by
      refine hb.invariant (I := fun b => b.Ok ∧ b.nbits = nbits) ⟨hok, hnbits⟩ fun s c s' hs hc hstep => ?_
      obtain ⟨hok', hnbits'⟩ := hs.1.step hc hstep
      exact ⟨hok', hnbits'.trans hs.2⟩
    exact ⟨hinv.2, hinv.1.exact⟩

theorem bitmap_exact_iff_eleven :
    (∃ b₀, Bitmap.create 11 true true = .ok (some b₀) ∧ b₀.marked = ∅ ∧
      ∀ b, Reach bitmapStep Bitmap.Respects b₀ b → b.nbits = 11 ∧ b.Exact) ↔ 11 + 7 < 2 ^ 32 :=
  bitmap_exact_iff (by decide)

theorem bitmap_wraps_enospc :
    ∃ b, Bitmap.create (2 ^ 32 - 1) true true = .ok (some b) ∧ b.marked = ∅ ∧ b.alloc = .ok (none, b) := by
  obtain ⟨hcreate, halloc⟩ := bitmapCreate_wraps (show 2 ^ 32 - 1 < 2 ^ 32 by decide) (by decide)
  exact ⟨_, hcreate, marked_nil, halloc⟩

end Os161
