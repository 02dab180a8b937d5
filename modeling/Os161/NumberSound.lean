import Os161.PrintfSound
import Mathlib.Algebra.Ring.Parity
import Mathlib.Data.Nat.ModEq
import Mathlib.Data.Nat.Prime.Basic

/-!
# Printed numbers read back

A number is printed as its digits with a sign or a prefix, and padding in one
of three places. `atoi` skips spaces in front and zeros before the digits; it
stops at a space behind them, but takes zeros behind them for digits.
-/

namespace Os161

open Outcome

/-! ## What digits denote -/

def textValue (base : Nat) (text : List UInt8) : Nat := text.foldl (fun v ch => v * base + pfDigits.idxOf ch) 0

theorem pfDigits_idxOf {k : Nat} (hk : k < 16) : pfDigits.idxOf (pfDigits.getD k 0) = k := by
  have hall : ∀ k < 16, pfDigits.idxOf (pfDigits.getD k 0) = k := by decide
  exact hall k hk

theorem textValue_numeral {base : Nat} (hb : 1 < base) (hle : base ≤ 16) (n : Nat) :
    textValue base (numeral base n) = n := by
  induction n using Nat.strong_induction_on with
  | _ n ih =>
    have hlast : pfDigits.idxOf (pfDigits.getD (n % base) 0) = n % base :=
      pfDigits_idxOf (Nat.lt_of_lt_of_le (Nat.mod_lt n (Nat.zero_lt_of_lt hb)) hle)
    rw [numeral_eq hb]
    unfold textValue at ih ⊢
    rw [List.foldl_append, List.foldl_cons, List.foldl_nil, hlast]
    have hdiv := Nat.div_add_mod n base
    by_cases hq : n / base > 0
    · have hpos : 0 < n := Nat.lt_of_lt_of_le hq (Nat.div_le_self n base)
      rw [if_pos hq, ih _ (Nat.div_lt_self hpos hb), Nat.mul_comm]
      exact hdiv
    · rw [Nat.eq_zero_of_not_pos hq, Nat.mul_zero] at hdiv
      rw [if_neg hq, List.foldl_nil, Nat.zero_mul]
      exact hdiv

/-! ## `atoi` -/

theorem digit_index {k : Nat} (hk : k < 10) : decimalDigits.findIdx? (· == pfDigits.getD k 0) = some k := by
  have hall : ∀ k < 10, decimalDigits.findIdx? (· == pfDigits.getD k 0) = some k := by decide
  exact hall k hk

theorem atoiLoop_digit {v d : Nat} (hd : d < 10) (s : List UInt8) :
    atoiLoop (BitVec.ofNat 32 v) (pfDigits.getD d 0 :: s) = atoiLoop (BitVec.ofNat 32 (v * 10 + d)) s := by
  rw [atoiLoop, digit_index hd]
  dsimp only
  rw [BitVec.ofNat_add, BitVec.ofNat_mul]
  rfl

theorem atoiLoop_numeral (n : Nat) (s : List UInt8) :
    atoiLoop 0 (numeral 10 n ++ s) = atoiLoop (BitVec.ofNat 32 n) s := by
  induction n using Nat.strong_induction_on generalizing s with
  | _ n ih =>
    have hdigit : n % 10 < 10 := Nat.mod_lt n (by decide)
    rw [numeral_eq (by decide), List.append_assoc, List.singleton_append]
    by_cases hq : n / 10 > 0
    · rw [if_pos hq, ih (n / 10) (by omega), atoiLoop_digit hdigit]
      congr 2
      omega
    · rw [if_neg hq, List.nil_append]
      have hfirst := atoiLoop_digit (v := 0) hdigit s
      rw [show 0 * 10 + n % 10 = n by omega] at hfirst
      exact hfirst

theorem atoiLoop_zeros (v k : Nat) (s : List UInt8) :
    atoiLoop (BitVec.ofNat 32 v) (List.replicate k '0'.toUInt8 ++ s) = atoiLoop (BitVec.ofNat 32 (v * 10 ^ k)) s := by
  induction k generalizing v with
  | zero => simp
  | succ k ih =>
    rw [List.replicate_succ, List.cons_append]
    have hzero := atoiLoop_digit (v := v) (d := 0) (by decide) (List.replicate k '0'.toUInt8 ++ s)
    rw [Nat.add_zero] at hzero
    rw [show '0'.toUInt8 = pfDigits.getD 0 0 by decide] at hzero ih ⊢
    rw [hzero, ih, Nat.mul_assoc, ← Nat.pow_succ']

theorem atoiLoop_spaces (v : BitVec 32) (k : Nat) : atoiLoop v (List.replicate k ' '.toUInt8) = v := by
  cases k with
  | zero => rfl
  | succ k => rfl

theorem atoi_digits {ch : UInt8} (hch : ch ∈ decimalDigits) (s : List UInt8) :
    atoi (ch :: s) = atoiLoop 0 (ch :: s) := by
  have hall : ∀ c ∈ decimalDigits,
      (c == ' '.toUInt8 || c == '\t'.toUInt8) = false ∧ c ≠ '-'.toUInt8 ∧ c ≠ '+'.toUInt8 := by
    decide +kernel
  obtain ⟨hspace, hminus, hplus⟩ := hall ch hch
  unfold atoi
  rw [List.dropWhile_cons_of_neg (by rw [hspace]; exact Bool.false_ne_true)]
  dsimp only
  rw [if_neg hminus, if_neg hplus]

theorem atoi_spaces (k : Nat) (s : List UInt8) : atoi (List.replicate k ' '.toUInt8 ++ s) = atoi s := by
  unfold atoi
  rw [List.dropWhile_append_of_pos]
  intro ch hch
  rw [(List.mem_replicate.mp hch).2]
  rfl

theorem getD_mem_decimalDigits {d : Nat} (hd : d < 10) : pfDigits.getD d 0 ∈ decimalDigits := by
  have hall : ∀ d < 10, pfDigits.getD d 0 ∈ decimalDigits := by decide
  exact hall d hd

theorem numeral_head (n : Nat) : ∃ ch s, numeral 10 n = ch :: s ∧ ch ∈ decimalDigits := by
  induction n using Nat.strong_induction_on with
  | _ n ih =>
    have hdigit : n % 10 < 10 := Nat.mod_lt n (by decide)
    rw [numeral_eq (by decide)]
    by_cases hq : n / 10 > 0
    · obtain ⟨ch, s, heq, hmem⟩ := ih (n / 10) (by omega)
      rw [if_pos hq, heq]
      exact ⟨ch, _, rfl, hmem⟩
    · rw [if_neg hq]
      exact ⟨_, _, rfl, getD_mem_decimalDigits hdigit⟩

def signText (neg : Bool) : List UInt8 := if neg = true then ascii ['-'] else []

def signed (neg : Bool) (v : BitVec 32) : BitVec 32 := if neg = true then -v else v

theorem atoi_number (neg : Bool) (a k n : Nat) (s : List UInt8) :
    atoi (List.replicate a ' '.toUInt8 ++ (signText neg ++ (List.replicate k '0'.toUInt8 ++ (numeral 10 n ++ s)))) =
      signed neg (atoiLoop (BitVec.ofNat 32 n) s) := by
  have hdigits : atoiLoop 0 (List.replicate k '0'.toUInt8 ++ (numeral 10 n ++ s)) = atoiLoop (BitVec.ofNat 32 n) s := by
    have hzeros := atoiLoop_zeros 0 k (numeral 10 n ++ s)
    rw [Nat.zero_mul] at hzeros
    exact hzeros.trans (atoiLoop_numeral n s)
  rw [atoi_spaces]
  cases neg with
  | true => exact congrArg Neg.neg hdigits
  | false =>
    rw [← hdigits]
    have hhead : ∃ ch t, List.replicate k '0'.toUInt8 ++ (numeral 10 n ++ s) = ch :: t ∧ ch ∈ decimalDigits := by
      cases k with
      | zero =>
        obtain ⟨ch, t, heq, hmem⟩ := numeral_head n
        exact ⟨ch, t ++ s, by rw [heq]; rfl, hmem⟩
      | succ k => exact ⟨_, _, rfl, by decide⟩
    obtain ⟨ch, t, heq, hmem⟩ := hhead
    rw [heq]
    exact atoi_digits hmem t

/-! ## One conversion -/

def Modifiers : Type := { ms : List UInt8 // ∀ ch ∈ ms, ch ∈ pfModifiers }

inductive Conv
  | d
  | u
  | o
  | x
  deriving DecidableEq, Repr

def Conv.char : Conv → UInt8
  | .d => 'd'.toUInt8
  | .u => 'u'.toUInt8
  | .o => 'o'.toUInt8
  | .x => 'x'.toUInt8

def Conv.base : Conv → Nat
  | .d | .u => 10
  | .o => 8
  | .x => 16

def directive (ms : Modifiers) (c : Conv) : CString where
  chars := '%'.toUInt8 :: (ms.1 ++ [c.char])
  noNul := by
    have hms : 0 ∉ ms.1 := fun h => absurd (ms.2 0 h) (by decide)
    rw [List.mem_cons, List.mem_append, List.mem_singleton, not_or, not_or]
    exact ⟨by decide, hms, by cases c <;> decide⟩

def applyModifier (pf : PfField) (ch : UInt8) : PfField :=
  match pfModifier pf ch with
  | .ok field => field
  | .error _ => pf

def Modifiers.field (ms : Modifiers) : PfField := ms.1.foldl applyModifier { pfEndfield with inPct := true }

structure PfField.Ready (pf : PfField) : Prop where
  inPct : pf.inPct = true
  fill : pf.fillchar = ' '.toUInt8 ∨ pf.fillchar = '0'.toUInt8
  sign : pf.sign = false
  baseprefix : pf.baseprefix = false

theorem PfField.Ready.modifier {pf field : PfField} {ch : UInt8} (h : pf.Ready) (hf : pfModifier pf ch = .ok field) :
    field.Ready := by
  unfold pfModifier at hf
  repeat' split at hf
  all_goals cases hf
  all_goals first
    | exact ⟨h.inPct, h.fill, h.sign, h.baseprefix⟩
    | exact ⟨h.inPct, Or.inr rfl, h.sign, h.baseprefix⟩

theorem fieldStep_modifier {pf : PfField} {ch : UInt8} (h : pf.Ready) (hch : ch ∈ pfModifiers) (ap : List VaArg) :
    fieldStep pf ap ch = .ok (applyModifier pf ch, ap, []) ∧ (applyModifier pf ch).Ready := by
  have hcontains : pfModifiers.contains ch = true := List.contains_iff_mem.mpr hch
  have hne : ch ≠ 0 := fun he => absurd (he ▸ hch) (by decide)
  obtain ⟨field, hfield, -⟩ := pfModifier_ok pf hcontains
  have happly : applyModifier pf ch = field := by rw [applyModifier, hfield]
  rw [happly]
  refine ⟨?_, h.modifier hfield⟩
  unfold fieldStep
  rw [if_neg hne, if_neg (by simp [h.inPct]), if_neg (by simp [h.inPct]), if_pos hcontains, hfield]
  rfl

theorem formatText_modifiers {pf : PfField} (h : pf.Ready) {ms : List UInt8} (hms : ∀ ch ∈ ms, ch ∈ pfModifiers)
    (ap : List VaArg) (rest : List UInt8) :
    formatText pf ap (ms ++ rest) = formatText (ms.foldl applyModifier pf) ap rest ∧
    (ms.foldl applyModifier pf).Ready := by
  induction ms generalizing pf with
  | nil => exact ⟨rfl, h⟩
  | cons ch ms ih =>
    obtain ⟨hstep, hready⟩ := fieldStep_modifier h (hms ch List.mem_cons_self) ap
    obtain ⟨heq, hlast⟩ := ih hready fun c hc => hms c (List.mem_cons_of_mem ch hc)
    refine ⟨?_, hlast⟩
    rw [List.cons_append, formatText, hstep, ok_bind]
    dsimp only
    rw [heq, List.foldl_cons]
    cases formatText (ms.foldl applyModifier (applyModifier pf ch)) ap rest <;> rfl

def Modifiers.number (ms : Modifiers) (c : Conv) (w : BitVec 32) : PfField :=
  pfSetbase (pfStorenum ms.field c.char w) c.char

theorem number_base (ms : Modifiers) (c : Conv) (w : BitVec 32) : (ms.number c w).base = c.base := by
  cases c <;> rfl

theorem pfEndfield_ready : ({ pfEndfield with inPct := true } : PfField).Ready := ⟨rfl, Or.inl rfl, rfl, rfl⟩

theorem Modifiers.ready (ms : Modifiers) : ms.field.Ready := (formatText_modifiers pfEndfield_ready ms.2 [] []).2

def numberField (ms : Modifiers) (c : Conv) (w : BitVec 32) : List UInt8 :=
  fieldText (ms.number c w) (pfSignText (ms.number c w)) (pfBaseText (ms.number c w))
    (numeral c.base (ms.number c w).num.toNat)

theorem vprintf_number (ms : Modifiers) (c : Conv) (w : BitVec 32) :
    vprintf collect [] (directive ms c) [.word w] = .ok ((numberField ms c w).length, numberField ms c w) := by
  have hready := ms.ready
  have hstart : fieldStep pfEndfield [.word w] '%'.toUInt8 = .ok ({ pfEndfield with inPct := true }, [.word w], []) :=
    rfl
  obtain ⟨heq, -⟩ := formatText_modifiers pfEndfield_ready ms.2 [.word w] [c.char]
  have hbase : 8 ≤ (ms.number c w).base := by
    rw [number_base]
    cases c <;> decide
  have hconv : fieldStep ms.field [.word w] c.char = .ok (pfEndfield, [], numberField ms c w) := by
    unfold fieldStep
    rw [if_neg (by cases c <;> decide), if_neg (by simp [hready.inPct]), if_neg (by simp [hready.inPct]),
      if_neg (by cases c <;> decide), if_pos (by cases c <;> decide), vaWord, ok_bind]
    dsimp only
    rw [show pfSetbase (pfStorenum ms.field c.char w) c.char = ms.number c w from rfl, number_fits hbase, number_base]
    rfl
  rw [vprintf_eq collect_sink]
  unfold directive
  dsimp only
  rw [formatText, hstart, ok_bind]
  dsimp only
  rw [heq, show ms.1.foldl applyModifier { pfEndfield with inPct := true } = ms.field from rfl,
    formatText, hconv, ok_bind]
  dsimp only
  rw [formatText, ok_bind, ok_bind, List.append_nil]
  rfl

/-! ## Signed numbers -/

def isNeg (w : BitVec 32) : Bool := decide (w.toInt < 0)

def magnitude (w : BitVec 32) : Nat := (signed (isNeg w) w).toNat

def decimalText (w : BitVec 32) : List UInt8 := signText (isNeg w) ++ numeral 10 (magnitude w)

theorem signed_magnitude (w : BitVec 32) : signed (isNeg w) (BitVec.ofNat 32 (magnitude w)) = w := by
  unfold magnitude
  rw [BitVec.ofNat_toNat, BitVec.setWidth_eq]
  unfold signed
  split
  · exact BitVec.neg_neg
  · rfl

theorem signed_inj {neg : Bool} {v v' : BitVec 32} : signed neg v = signed neg v' ↔ v = v' := by
  unfold signed
  split
  · exact BitVec.neg_inj
  · rfl

theorem magnitude_eq_zero {w : BitVec 32} : magnitude w = 0 ↔ w = 0 := by
  have hw := signed_magnitude w
  constructor
  · intro h
    rw [h] at hw
    rw [← hw]
    unfold signed
    split <;> rfl
  · rintro rfl
    rfl

theorem numberField_signed (ms : Modifiers) (w : BitVec 32) :
    numberField ms .d w = fieldText ms.field (signText (isNeg w)) [] (numeral 10 (magnitude w)) := by
  have hbase : pfBaseText (ms.number .d w) = [] := by
    unfold pfBaseText
    rw [number_base, if_neg (fun h => absurd h.2 (by decide)), if_neg (fun h => absurd h.2 (by decide))]
  unfold numberField
  rw [hbase]
  unfold Modifiers.number magnitude isNeg
  by_cases hneg : w.toInt < 0
  · have hstore : pfStorenum ms.field Conv.d.char w = { ms.field with sign := true, num := -w } := if_pos ⟨rfl, hneg⟩
    rw [hstore, decide_eq_true hneg]
    rfl
  · have hstore : pfStorenum ms.field Conv.d.char w = { ms.field with num := w } := if_neg fun h => hneg h.2
    have hsign : pfSignText (pfSetbase { ms.field with num := w } Conv.d.char) = [] :=
      if_neg (by simp [pfSetbase, ms.ready.sign])
    rw [hstore, hsign, decide_eq_false hneg]
    rfl

theorem shifted_eq {v k : Nat} (hv : v < 2 ^ 32) : BitVec.ofNat 32 (v * 10 ^ k) = BitVec.ofNat 32 v ↔
    k = 0 ∨ v = 0 := by
  constructor
  · intro h
    by_cases hk : k = 0
    · exact Or.inl hk
    right
    have hmod : v * 10 ^ k ≡ v [MOD 2 ^ 32] := by
      have hnat := congrArg BitVec.toNat h
      rwa [BitVec.toNat_ofNat, BitVec.toNat_ofNat] at hnat
    have hdvd : 2 ^ 32 ∣ v * (10 ^ k - 1) := by
      rw [Nat.mul_sub_one]
      exact (Nat.modEq_iff_dvd' (Nat.le_mul_of_pos_right v (Nat.pow_pos (by decide)))).mp hmod.symm
    have hodd : Nat.Coprime (2 ^ 32) (10 ^ k - 1) := by
      refine Nat.Coprime.pow_left 32 ?_
      obtain ⟨j, rfl⟩ := Nat.exists_eq_succ_of_ne_zero hk
      rw [Nat.coprime_two_left]
      exact Nat.Even.sub_odd (Nat.pow_pos (by decide))
        ((by decide : Even 10).pow_of_ne_zero (Nat.succ_ne_zero j)) odd_one
    exact Nat.eq_zero_of_dvd_of_lt (hodd.dvd_of_dvd_mul_right hdvd) hv
  · rintro (rfl | rfl) <;> simp

theorem atoi_numberField (ms : Modifiers) (w : BitVec 32) :
    atoi (numberField ms .d w) = signed (isNeg w) (BitVec.ofNat 32 (magnitude w *
      if ms.field.rightspc = true ∧ ms.field.fillchar = '0'.toUInt8 then
        10 ^ (ms.field.spacing - (decimalText w).length) else 1)) := by
  have hlen : (signText (isNeg w)).length + ([] : List UInt8).length + (numeral 10 (magnitude w)).length =
      (decimalText w).length := by
    unfold decimalText
    rw [List.length_append]
    rfl
  rw [numberField_signed]
  unfold fieldText
  dsimp only
  rw [hlen]
  generalize ms.field.spacing - (decimalText w).length = k
  have hne : ' '.toUInt8 ≠ '0'.toUInt8 := by decide
  cases hright : ms.field.rightspc with
  | false =>
    have hleft : ¬ (false = true ∧ ms.field.fillchar = '0'.toUInt8) := fun h => Bool.false_ne_true h.1
    rw [if_neg Bool.false_ne_true, if_neg hleft, Nat.mul_one, List.append_nil]
    rcases ms.ready.fill with hfill | hfill
    · rw [hfill, if_pos ⟨rfl, hne⟩, if_neg (fun h => hne h.2), List.append_nil, List.append_nil]
      have hatoi := atoi_number (isNeg w) k 0 (magnitude w) []
      simpa [atoiLoop] using hatoi
    · rw [hfill, if_neg (fun h => h.2 rfl), if_pos ⟨rfl, rfl⟩, List.append_nil, List.nil_append]
      have hatoi := atoi_number (isNeg w) 0 k (magnitude w) []
      simpa [atoiLoop] using hatoi
  | true =>
    have hspaces : ¬ (true = false ∧ ms.field.fillchar ≠ '0'.toUInt8) := fun h => Bool.false_ne_true h.1.symm
    have hzeros : ¬ (true = false ∧ ms.field.fillchar = '0'.toUInt8) := fun h => Bool.false_ne_true h.1.symm
    rw [if_neg hspaces, if_neg hzeros, if_pos rfl, List.append_nil, List.append_nil, List.nil_append]
    have hatoi := atoi_number (isNeg w) 0 0 (magnitude w) (List.replicate k ms.field.fillchar)
    rw [List.replicate_zero, List.replicate_zero, List.nil_append, List.nil_append, ← List.append_assoc] at hatoi
    rw [hatoi]
    rcases ms.ready.fill with hfill | hfill
    · rw [hfill, atoiLoop_spaces, if_neg (fun h => hne h.2), Nat.mul_one]
    · have hzeros := atoiLoop_zeros (magnitude w) k []
      rw [List.append_nil] at hzeros
      rw [hfill, hzeros, if_pos ⟨rfl, rfl⟩]
      rfl

/-! ## The conversions as inverses -/

def SignedInverse (ms : Modifiers) (w : BitVec 32) : Prop :=
  ∃ out, vprintf collect [] (directive ms .d) [.word w] = .ok (out.length, out) ∧ atoi out = w

/-- What the flag `#` puts before the digits. -/
def Conv.mark : Conv → List UInt8
  | .d | .u => []
  | .o => ascii ['0']
  | .x => ascii ['0', 'x']

/-- A number in a field of the given width. Blanks go before the prefix, zeros
between it and the digits; with `-` both go behind the digits. -/
def padded (pf : PfField) (mark digits : List UInt8) : List UInt8 :=
  let pad := List.replicate (pf.spacing - (mark.length + digits.length)) pf.fillchar
  if pf.rightspc = true then mark ++ digits ++ pad
  else if pf.fillchar = '0'.toUInt8 then mark ++ pad ++ digits
  else pad ++ mark ++ digits

def UnsignedExact (ms : Modifiers) (c : Conv) (w : BitVec 32) : Prop :=
  ∃ digits out, out = padded ms.field (if ms.field.altformat = true then c.mark else []) digits ∧
    vprintf collect [] (directive ms c) [.word w] = .ok (out.length, out) ∧
    digits ≠ [] ∧ textValue c.base digits = w.toNat

def ZerosBehind (ms : Modifiers) (w : BitVec 32) : Prop :=
  ms.field.rightspc = true ∧ ms.field.fillchar = '0'.toUInt8 ∧ (decimalText w).length < ms.field.spacing

theorem signedInverse_iff (ms : Modifiers) (w : BitVec 32) : SignedInverse ms w ↔ w = 0 ∨ ¬ ZerosBehind ms w := by
  have hatoi : SignedInverse ms w ↔ atoi (numberField ms .d w) = w := by
    unfold SignedInverse
    rw [vprintf_number]
    constructor
    · rintro ⟨out, hout, hw⟩
      obtain rfl := (Prod.mk.inj (Except.ok.inj hout)).2
      exact hw
    · intro hw
      exact ⟨_, rfl, hw⟩
  have hv : magnitude w < 2 ^ 32 := (signed (isNeg w) w).isLt
  rw [hatoi, atoi_numberField]
  conv_lhs => rhs; rw [← signed_magnitude w]
  rw [signed_inj]
  unfold ZerosBehind
  by_cases hflags : ms.field.rightspc = true ∧ ms.field.fillchar = '0'.toUInt8
  · rw [if_pos hflags, shifted_eq hv, magnitude_eq_zero]
    simp only [hflags.1, hflags.2, true_and, not_lt]
    rw [Nat.sub_eq_zero_iff_le, or_comm]
  · rw [if_neg hflags, Nat.mul_one]
    exact ⟨fun _ => Or.inr fun h => hflags ⟨h.1, h.2.1⟩, fun _ => rfl⟩

theorem numeral_ne_nil {base : Nat} (hb : 1 < base) (n : Nat) : numeral base n ≠ [] := by
  rw [numeral_eq hb]
  simp

theorem fieldText_padded (pf : PfField) (mark digits : List UInt8) :
    fieldText pf [] mark digits = padded pf mark digits := by
  unfold fieldText padded
  cases pf.rightspc with
  | true => simp
  | false =>
    by_cases hfill : pf.fillchar = '0'.toUInt8
    · simp [hfill]
    · simp [hfill]

theorem pfBaseText_number (ms : Modifiers) (c : Conv) (w : BitVec 32) :
    pfBaseText (ms.number c w) = if ms.field.altformat = true then c.mark else [] := by
  have halt : PfField.baseprefix (ms.number c w) = ms.field.altformat := by
    have hstore : (pfStorenum ms.field c.char w).altformat = ms.field.altformat ∧
        PfField.baseprefix (pfStorenum ms.field c.char w) = false := by
      unfold pfStorenum
      split <;> exact ⟨rfl, ms.ready.baseprefix⟩
    have hp : decide (c.char = 'p'.toUInt8) = false := by cases c <;> rfl
    simp only [Modifiers.number, pfSetbase, hstore.1, hstore.2, hp, Bool.or_false, Bool.false_or]
  unfold pfBaseText
  rw [halt, number_base]
  cases c <;> simp [Conv.base, Conv.mark]

theorem unsignedExact (ms : Modifiers) {c : Conv} (hc : c ≠ .d) (w : BitVec 32) : UnsignedExact ms c w := by
  have hstore : pfStorenum ms.field c.char w = { ms.field with num := w } :=
    if_neg fun h => by cases c <;> first | exact hc rfl | exact absurd h.1 (by decide)
  have hnum : ms.number c w = pfSetbase { ms.field with num := w } c.char := by rw [Modifiers.number, hstore]
  have hsign : pfSignText (ms.number c w) = [] := by
    rw [hnum]
    exact if_neg (by simp [pfSetbase, ms.ready.sign])
  have hbase : 1 < c.base ∧ c.base ≤ 16 := by cases c <;> decide
  have hfield : numberField ms c w =
      padded ms.field (if ms.field.altformat = true then c.mark else []) (numeral c.base w.toNat) := by
    unfold numberField
    rw [hsign, fieldText_padded, pfBaseText_number, hnum]
    rfl
  exact ⟨_, _, hfield, vprintf_number ms c w, numeral_ne_nil hbase.1 _, textValue_numeral hbase.1 hbase.2 _⟩

/-- Printing and reading a number are inverse, and the digits of `%u`, `%o` and `%x` denote it, except
where zeros are padded behind the digits. -/
theorem printf_inverse_iff (ms : Modifiers) (w : BitVec 32) :
    SignedInverse ms w ∧ (∀ c, c ≠ .d → UnsignedExact ms c w) ↔ w = 0 ∨ ¬ ZerosBehind ms w := by
  rw [signedInverse_iff]
  exact and_iff_left fun c hc => unsignedExact ms hc w

theorem printf_zeros_behind :
    vprintf collect [] (directive ⟨ascii ['-', '0', '5'], by decide +kernel⟩ .d) [.word 5] =
        .ok (5, ascii ['5', '0', '0', '0', '0']) ∧
      atoi (ascii ['5', '0', '0', '0', '0']) = 50000 ∧ (50000 : BitVec 32) ≠ 5 :=
  ⟨rfl, rfl, by decide⟩

end Os161
