import Os161.Lib.Outcome
import Os161.Printf
import Mathlib.Data.List.Induction
import Mathlib.Data.Nat.Digits.Defs

/-!
# What is printed does not depend on where it goes

`formatText` is the text of a format and its arguments. To send it in pieces
to a sink for which the pieces do not matter is to send it at once, so
`vsnprintf` stores the beginning of what any other function would print.
-/

namespace Os161

open Outcome

/-! ## The text of a field -/

def fieldText (pf : PfField) (pfx pfx2 stuff : List UInt8) : List UInt8 :=
  let fill := List.replicate (pf.spacing - (pfx.length + pfx2.length + stuff.length)) pf.fillchar
  (if pf.rightspc = false ∧ pf.fillchar ≠ '0'.toUInt8 then fill else []) ++ pfx ++ pfx2 ++
    (if pf.rightspc = false ∧ pf.fillchar = '0'.toUInt8 then fill else []) ++ stuff ++
    (if pf.rightspc = true then fill else [])

def fieldStep (pf : PfField) (ap : List VaArg) (ch : UInt8) : Except PfFault (PfField × List VaArg × List UInt8) :=
  if ch = 0 then .error .assertion
  else if pf.inPct = false ∧ ch ≠ '%'.toUInt8 then .ok (pf, ap, [ch])
  else if pf.inPct = false then .ok ({ pf with inPct := true }, ap, [])
  else if pfModifiers.contains ch = true then do
    let field ← pfModifier pf ch
    .ok (field, ap, [])
  else if pfIntegers.contains ch = true then do
    let (w, ap) ← vaWord ap
    let pf := pfSetbase (pfStorenum pf ch w) ch
    let x ← numberText pf.base (numberBufSize - 1) pf.num.toNat []
    .ok (pfEndfield, ap, fieldText pf (pfSignText pf) (pfBaseText pf) x)
  else if ch = 's'.toUInt8 then do
    let (str, ap) ← vaString ap
    let str := match str with
      | some str => str.chars
      | none => ascii ['(', 'n', 'u', 'l', 'l', ')']
    .ok (pfEndfield, ap, fieldText pf [] [] str)
  else if ch = 'c'.toUInt8 then do
    let (w, ap) ← vaWord ap
    .ok (pfEndfield, ap, fieldText pf [] [] (charString (UInt8.ofNat w.toNat)))
  else .ok (pfEndfield, ap, fieldText pf [] [] (charString ch))

def formatText (pf : PfField) (ap : List VaArg) : List UInt8 → Except PfFault (List UInt8)
  | [] => .ok []
  | ch :: format => do
    let (pf, ap, text) ← fieldStep pf ap ch
    let rest ← formatText pf ap format
    .ok (text ++ rest)

/-! ## Sinks -/

structure Sink {σ : Type} (send : σ → List UInt8 → σ) : Prop where
  nil : ∀ c, send c [] = c
  append : ∀ c xs ys, send c (xs ++ ys) = send (send c xs) ys

section
variable {σ : Type} {send : σ → List UInt8 → σ} (h : Sink send) {pf : PF σ} {xs ys : List UInt8}
include h

theorem pfPrint_nil : pfPrint send pf [] = pf := by
  unfold pfPrint
  rw [h.nil]
  rfl

theorem pfPrint_append : pfPrint send (pfPrint send pf xs) ys = pfPrint send pf (xs ++ ys) := by
  unfold pfPrint
  rw [h.append, List.length_append, ← Nat.add_assoc]

theorem pfFill_eq {n : Nat} : pfFill send pf n = pfPrint send pf (List.replicate n pf.fillchar) := by
  induction n generalizing pf with
  | zero => rw [pfFill, List.replicate_zero, pfPrint_nil h]
  | succ n ih =>
    rw [pfFill, ih, List.replicate_succ]
    exact pfPrint_append h

theorem pfFillIf_eq {c : Prop} [Decidable c] {n : Nat} :
    pfFillIf send pf c n = pfPrint send pf (if c then List.replicate n pf.fillchar else []) := by
  unfold pfFillIf
  split
  · exact pfFill_eq h
  · rw [pfPrint_nil h]

theorem pfPrintstuff_eq {pfx pfx2 stuff : List UInt8} :
    pfPrintstuff send pf pfx pfx2 stuff = pfPrint send pf (fieldText pf.toPfField pfx pfx2 stuff) := by
  have hspc : ∀ len, (if pf.spacing > len then pf.spacing - len else 0) = pf.spacing - len := by
    intro len
    split <;> omega
  -- without room there is nothing to fill, so the test of `spc` can go
  have hfill : ∀ (n : Nat) (c : Prop) [Decidable c], (if n > 0 ∧ c then List.replicate n pf.fillchar else []) =
      if c then List.replicate n pf.fillchar else [] := by
    intro n c _
    cases n with
    | zero => simp
    | succ n => simp
  unfold pfPrintstuff fieldText
  dsimp only
  simp only [hspc, pfFillIf_eq h, pfPrint_append h]
  simp only [pfPrint, hfill]

theorem pfSend_eq (ch : UInt8) :
    pfSend send pf ch = fieldStep pf.toPfField pf.ap ch >>= fun r =>
      .ok { pfPrint send pf r.2.2 with toPfField := r.1, ap := r.2.1 } := by
  unfold pfSend fieldStep
  split
  · rfl
  split
  · rfl
  split
  · rw [ok_bind, pfPrint_nil h]
  split
  · cases pfModifier pf.toPfField ch with
    | error e => rfl
    | ok field =>
      rw [ok_bind, ok_bind, ok_bind, pfPrint_nil h]
  split
  · cases vaWord pf.ap with
    | error e => rfl
    | ok r =>
      rw [ok_bind, ok_bind]
      dsimp only
      unfold pfPrintnum
      cases numberText _ _ _ _ with
      | error e => rfl
      | ok x =>
        rw [ok_bind, ok_bind, ok_bind, ok_bind, pfPrintstuff_eq h]
        rfl
  split
  · cases vaString pf.ap with
    | error e => rfl
    | ok r =>
      rw [ok_bind, ok_bind, ok_bind]
      dsimp only
      rw [pfPrintstuff_eq h]
      rfl
  split
  · cases vaWord pf.ap with
    | error e => rfl
    | ok r =>
      rw [ok_bind, ok_bind, ok_bind]
      dsimp only
      rw [pfPrintstuff_eq h]
      rfl
  · rw [ok_bind, pfPrintstuff_eq h]
    rfl

theorem foldlM_pfSend (pf : PF σ) (format : List UInt8) :
    (format.foldlM (pfSend send) pf).map (fun pf' => (pf'.charcount, pf'.clientdata)) =
      (formatText pf.toPfField pf.ap format).map fun out => (pf.charcount + out.length, send pf.clientdata out) := by
  induction format generalizing pf with
  | nil =>
    change Except.ok (pf.charcount, pf.clientdata) = Except.ok (pf.charcount + 0, send pf.clientdata [])
    rw [h.nil]
    rfl
  | cons ch format ih =>
    rw [List.foldlM_cons, pfSend_eq h, formatText]
    cases fieldStep pf.toPfField pf.ap ch with
    | error e => rfl
    | ok r =>
      obtain ⟨field, ap, text⟩ := r
      rw [ok_bind, ok_bind]
      dsimp only
      rw [ok_bind, ih]
      dsimp only
      cases formatText field ap format with
      | error e => rfl
      | ok out =>
        rw [ok_bind]
        change Except.ok (pf.charcount + text.length + out.length, send (send pf.clientdata text) out) =
          Except.ok (pf.charcount + (text ++ out).length, send pf.clientdata (text ++ out))
        rw [List.length_append, h.append, Nat.add_assoc]

theorem vprintf_eq (c : σ) (format : CString) (ap : List VaArg) :
    vprintf send c format ap = (formatText pfEndfield ap format.chars).map fun out => (out.length, send c out) := by
  have hrun := foldlM_pfSend h { pfEndfield with clientdata := c, ap := ap, charcount := 0 } format.chars
  simp only [Nat.zero_add] at hrun
  exact hrun

end

/-! ## Numbers fit their buffer -/

def numeral (base n : Nat) : List UInt8 :=
  if n = 0 then [pfDigits.getD 0 0] else (Nat.digits base n).reverse.map fun d => pfDigits.getD d 0

theorem numeral_eq {base : Nat} (hb : 1 < base) (n : Nat) :
    numeral base n = (if n / base > 0 then numeral base (n / base) else []) ++ [pfDigits.getD (n % base) 0] := by
  by_cases hn : n = 0
  · subst hn
    simp [numeral]
  · rw [numeral, if_neg hn, Nat.digits_def' hb (Nat.pos_of_ne_zero hn), List.reverse_cons, List.map_append]
    by_cases hq : n / base = 0
    · simp [hq]
    · rw [if_pos (Nat.pos_of_ne_zero hq), numeral, if_neg hq]
      rfl

theorem numberText_eq {base slots n : Nat} (hb : 1 < base) (hn : n < base ^ (slots + 1)) (x : List UInt8) :
    numberText base (slots + 1) n x = .ok (numeral base n ++ x) := by
  induction slots generalizing n x with
  | zero =>
    rw [Nat.zero_add, Nat.pow_one] at hn
    have hq : ¬ n / base > 0 := by
      rw [Nat.div_eq_of_lt hn]
      exact Nat.lt_irrefl 0
    unfold numberText
    dsimp only
    rw [numeral_eq hb, if_neg hq, if_neg hq]
    rfl
  | succ slots ih =>
    unfold numberText
    dsimp only
    rw [numeral_eq hb]
    split
    · rw [ih, List.append_assoc]
      · rfl
      · rw [Nat.div_lt_iff_lt_mul (Nat.zero_lt_of_lt hb), ← Nat.pow_succ]
        exact hn
    · rfl

theorem pfBase_ge {ch : UInt8} {base : Nat} (hch : pfIntegers.contains ch = true) : 8 ≤ pfBase ch base := by
  have hcases : ∀ c ∈ pfIntegers,
      (c = 'd'.toUInt8 ∨ c = 'u'.toUInt8) ∨ (c = 'x'.toUInt8 ∨ c = 'p'.toUInt8) ∨ c = 'o'.toUInt8 := by
    decide +kernel
  unfold pfBase
  by_cases hten : ch = 'd'.toUInt8 ∨ ch = 'u'.toUInt8
  · rw [if_pos hten]
    decide
  by_cases hsixteen : ch = 'x'.toUInt8 ∨ ch = 'p'.toUInt8
  · rw [if_neg hten, if_pos hsixteen]
    decide
  · have height := ((hcases ch (List.contains_iff_mem.mp hch)).resolve_left hten).resolve_left hsixteen
    rw [if_neg hten, if_neg hsixteen, if_pos height]

theorem number_fits {base : Nat} (hb : 8 ≤ base) (w : BitVec 32) :
    numberText base (numberBufSize - 1) w.toNat [] = .ok (numeral base w.toNat) := by
  have hfits : w.toNat < base ^ 11 := by
    calc w.toNat < 2 ^ 32 := w.isLt
      _ ≤ 8 ^ 11 := by decide
      _ ≤ base ^ 11 := Nat.pow_le_pow_left hb 11
  have htext := numberText_eq (by omega) hfits []
  rwa [List.append_nil] at htext

/-! ## Arguments that match -/

inductive ArgKind
  | word
  | string
  deriving DecidableEq, Repr

def VaArg.kind : VaArg → ArgKind
  | .word _ => .word
  | .string _ => .string

def argKinds : Bool → List UInt8 → List ArgKind
  | _, [] => []
  | false, ch :: format => argKinds (ch == '%'.toUInt8) format
  | true, ch :: format =>
    if pfModifiers.contains ch = true then argKinds true format
    else if pfIntegers.contains ch = true ∨ ch = 'c'.toUInt8 then .word :: argKinds false format
    else if ch = 's'.toUInt8 then .string :: argKinds false format
    else argKinds false format

def Matches (format : CString) (ap : List VaArg) : Prop := argKinds false format.chars <+: ap.map VaArg.kind

theorem pfModifier_ok (pf : PfField) {ch : UInt8} (hch : pfModifiers.contains ch = true) :
    ∃ field, pfModifier pf ch = .ok field ∧ field.inPct = pf.inPct := by
  have hcases : ∀ c ∈ pfModifiers, c ≠ '#'.toUInt8 → c ≠ '-'.toUInt8 → c ≠ 'l'.toUInt8 → c ≠ 'q'.toUInt8 →
      c ≠ '0'.toUInt8 → c > '0'.toUInt8 ∧ c ≤ '9'.toUInt8 := by
    decide +kernel
  have hdigit := hcases ch (List.contains_iff_mem.mp hch)
  unfold pfModifier
  repeat' split
  all_goals first
    | exact ⟨_, rfl, rfl⟩
    | exact absurd (hdigit ‹_› ‹_› ‹_› ‹_› ‹_›) ‹_›

theorem vaWord_ok {ap : List VaArg} {ks : List ArgKind} (h : ArgKind.word :: ks <+: ap.map VaArg.kind) :
    ∃ w ap', vaWord ap = .ok (w, ap') ∧ ks <+: ap'.map VaArg.kind := by
  cases ap with
  | nil => simp at h
  | cons a ap =>
    rw [List.map_cons, List.cons_prefix_cons] at h
    cases a with
    | word w => exact ⟨w, ap, rfl, h.2⟩
    | string s => cases h.1

theorem vaString_ok {ap : List VaArg} {ks : List ArgKind} (h : ArgKind.string :: ks <+: ap.map VaArg.kind) :
    ∃ s ap', vaString ap = .ok (s, ap') ∧ ks <+: ap'.map VaArg.kind := by
  cases ap with
  | nil => simp at h
  | cons a ap =>
    rw [List.map_cons, List.cons_prefix_cons] at h
    cases a with
    | word w => cases h.1
    | string s => exact ⟨s, ap, rfl, h.2⟩

theorem fieldStep_ok {pf : PfField} {ap : List VaArg} {ch : UInt8} {format : List UInt8} (hch : ch ≠ 0)
    (h : argKinds pf.inPct (ch :: format) <+: ap.map VaArg.kind) :
    ∃ pf' ap' text, fieldStep pf ap ch = .ok (pf', ap', text) ∧ argKinds pf'.inPct format <+: ap'.map VaArg.kind := by
  unfold fieldStep
  rw [if_neg hch]
  cases hpct : pf.inPct with
  | false =>
    rw [hpct] at h
    by_cases hp : ch = '%'.toUInt8
    · rw [if_neg (fun hc => hc.2 hp), if_pos rfl]
      refine ⟨_, _, _, rfl, ?_⟩
      rwa [argKinds, beq_iff_eq.mpr hp] at h
    · rw [if_pos ⟨rfl, hp⟩]
      refine ⟨_, _, _, rfl, ?_⟩
      rw [argKinds, beq_eq_false_iff_ne.mpr hp] at h
      rwa [hpct]
  | true =>
    rw [hpct, argKinds] at h
    rw [if_neg (fun hc => nomatch hc.1), if_neg (fun hc => nomatch hc)]
    by_cases hmod : pfModifiers.contains ch = true
    · rw [if_pos hmod] at h ⊢
      obtain ⟨field, hfield, hin⟩ := pfModifier_ok pf hmod
      rw [hfield, ok_bind]
      refine ⟨_, _, _, rfl, ?_⟩
      rwa [hin, hpct]
    rw [if_neg hmod] at h ⊢
    by_cases hint : pfIntegers.contains ch = true
    · rw [if_pos (Or.inl hint)] at h
      obtain ⟨w, ap', hap, hrest⟩ := vaWord_ok h
      rw [if_pos hint, hap, ok_bind]
      dsimp only
      have hbase : 8 ≤ (pfSetbase (pfStorenum pf ch w) ch).base := pfBase_ge hint
      rw [number_fits hbase, ok_bind]
      exact ⟨_, _, _, rfl, hrest⟩
    rw [if_neg hint]
    by_cases hs : ch = 's'.toUInt8
    · rw [if_neg (by rw [hs]; decide), if_pos hs] at h
      obtain ⟨s, ap', hap, hrest⟩ := vaString_ok h
      rw [if_pos hs, hap, ok_bind]
      exact ⟨_, _, _, rfl, hrest⟩
    rw [if_neg hs]
    by_cases hc : ch = 'c'.toUInt8
    · rw [if_pos (Or.inr hc)] at h
      obtain ⟨w, ap', hap, hrest⟩ := vaWord_ok h
      rw [if_pos hc, hap, ok_bind]
      exact ⟨_, _, _, rfl, hrest⟩
    · rw [if_neg (not_or_intro hint hc), if_neg hs] at h
      rw [if_neg hc]
      exact ⟨_, _, _, rfl, h⟩

theorem formatText_ok {pf : PfField} {ap : List VaArg} {format : List UInt8} (h0 : 0 ∉ format)
    (h : argKinds pf.inPct format <+: ap.map VaArg.kind) : ∃ out, formatText pf ap format = .ok out := by
  induction format generalizing pf ap with
  | nil => exact ⟨[], rfl⟩
  | cons ch format ih =>
    rw [List.mem_cons, not_or] at h0
    obtain ⟨pf', ap', text, hstep, hrest⟩ := fieldStep_ok (fun he => h0.1 he.symm) h
    obtain ⟨out, hout⟩ := ih h0.2 hrest
    rw [formatText, hstep, ok_bind]
    dsimp only
    rw [hout, ok_bind]
    exact ⟨_, rfl⟩

/-! ## `snprintf` -/

def collect (out text : List UInt8) : List UInt8 := out ++ text

theorem collect_sink : Sink collect where
  nil := List.append_nil
  append c xs ys := (List.append_assoc c xs ys).symm

theorem snprintfSend_sink : Sink snprintfSend where
  nil _ := rfl
  append _ _ _ := List.foldl_append

structure SnpHolds (buf : Nat → UInt8) (buflen : Nat) (out : List UInt8) (snp : SNP) : Prop where
  limit : snp.buflen = buflen
  bufpos : snp.bufpos = min out.length buflen
  stored : snp.stored = List.range snp.bufpos
  text : ∀ i < snp.bufpos, some (snp.buf i) = out[i]?
  rest : ∀ i, snp.bufpos ≤ i → snp.buf i = buf i

theorem snprintfSend_holds (buf : Nat → UInt8) (buflen : Nat) (out : List UInt8) :
    SnpHolds buf buflen out (snprintfSend { buf := buf, stored := [], buflen := buflen, bufpos := 0 } out) := by
  induction out using List.reverseRecOn with
  | nil => exact ⟨rfl, (Nat.zero_min _).symm, rfl, fun i hi => absurd hi (Nat.not_lt_zero i), fun _ _ => rfl⟩
  | append_singleton out ch ih =>
    rw [snprintfSend_sink.append]
    generalize snprintfSend { buf := buf, stored := [], buflen := buflen, bufpos := 0 } out = snp at ih
    have hpos := ih.bufpos
    unfold snprintfSend
    rw [List.foldl_cons, List.foldl_nil]
    by_cases hroom : snp.bufpos < snp.buflen
    · rw [if_pos hroom]
      rw [ih.limit] at hroom
      have hlen : snp.bufpos = out.length := by omega
      refine ⟨ih.limit, ?_, ?_, fun i hi => ?_, fun i hi => ?_⟩
      · rw [List.length_append, List.length_singleton]
        dsimp only
        omega
      · rw [List.range_succ, ← ih.stored]
        rfl
      · dsimp only [SNP.store] at hi ⊢
        by_cases hlast : i = snp.bufpos
        · rw [hlast, Function.update_self, hlen, List.getElem?_concat_length]
        · rw [Function.update_of_ne hlast, ih.text i (by omega), List.getElem?_append_left (by omega)]
      · dsimp only [SNP.store] at hi ⊢
        rw [Function.update_of_ne (by omega)]
        exact ih.rest i (by omega)
    · rw [if_neg hroom]
      rw [ih.limit] at hroom
      refine ⟨ih.limit, ?_, ih.stored, fun i hi => ?_, ih.rest⟩
      · rw [List.length_append, List.length_singleton]
        omega
      · rw [ih.text i hi, List.getElem?_append_left (by omega)]

/-- `vsnprintf` stores the beginning of what `__vprintf` prints and a terminator, and returns the full
length. -/
theorem vsnprintf_exact (fmt : CString) (ap : List VaArg) (h : Matches fmt ap) (buf : Nat → UInt8) (len : Nat) :
    ∃ out snp, vprintf collect [] fmt ap = .ok (out.length, out) ∧ vsnprintf buf len fmt ap = .ok (out.length, snp) ∧
      (∀ i ∈ snp.stored, i < len) ∧ (∀ i, i ∉ snp.stored → snp.buf i = buf i) ∧ (len = 0 → snp.stored = []) ∧
      (0 < len → (∀ i < min out.length (len - 1), some (snp.buf i) = out[i]?) ∧
        snp.buf (min out.length (len - 1)) = 0) := by
  have hkinds : argKinds pfEndfield.inPct fmt.chars <+: ap.map VaArg.kind := h
  obtain ⟨out, hout⟩ := formatText_ok fmt.noNul hkinds
  have hcollect : vprintf collect [] fmt ap = .ok (out.length, out) := by
    rw [vprintf_eq collect_sink, hout]
    rfl
  have hsend : vprintf snprintfSend (snpInit buf len) fmt ap =
      .ok (out.length, snprintfSend (snpInit buf len) out) := by
    rw [vprintf_eq snprintfSend_sink, hout]
    rfl
  have hst : SnpHolds buf (if len = 0 then 0 else len - 1) out (snprintfSend (snpInit buf len) out) :=
    snprintfSend_holds buf _ out
  generalize snprintfSend (snpInit buf len) out = snp at hsend hst
  have hpos := hst.bufpos
  refine ⟨out, ?_⟩
  unfold vsnprintf
  rw [hsend, ok_bind]
  dsimp only
  by_cases hlen : len = 0
  · rw [if_pos hlen, Nat.min_zero] at hpos
    have hnone : snp.stored = [] := by rw [hst.stored, hpos, List.range_zero]
    refine ⟨snp, hcollect, if_neg (by omega), fun i hi => ?_, fun i _ => hst.rest i (by omega),
      fun _ => hnone, fun h => ?_⟩
    · rw [hnone] at hi
      cases hi
    · omega
  · rw [if_neg hlen] at hpos
    refine ⟨snp.store snp.bufpos 0, hcollect, if_pos (by omega), fun i hi => ?_, fun i hi => ?_, fun h => absurd h hlen,
      fun _ => ⟨fun i hi => ?_, ?_⟩⟩
    · rw [SNP.store, hst.stored, List.mem_append, List.mem_range, List.mem_singleton] at hi
      omega
    · rw [SNP.store, hst.stored, List.mem_append, List.mem_range, List.mem_singleton, not_or] at hi
      rw [SNP.store]
      dsimp only
      rw [Function.update_of_ne hi.2, hst.rest i (by omega)]
    · rw [SNP.store]
      dsimp only
      rw [Function.update_of_ne (by omega), hst.text i (by omega)]
    · rw [← hpos, SNP.store]
      dsimp only
      rw [Function.update_self]

theorem vsnprintf_exact_cut :
    ∃ out snp, vprintf collect [] ⟨ascii ['%', '5', 'k', '%', 's'], by decide⟩ [.string none] = .ok (out.length, out) ∧
      vsnprintf (fun _ => 0) 4 ⟨ascii ['%', '5', 'k', '%', 's'], by decide⟩ [.string none] = .ok (out.length, snp) ∧
      ∀ i ∈ snp.stored, i < 4 := by
  obtain ⟨out, snp, hout, hsnp, hstored, -⟩ :=
    vsnprintf_exact ⟨ascii ['%', '5', 'k', '%', 's'], by decide⟩ [.string none]
      (by unfold Matches; decide) (fun _ => 0) 4
  exact ⟨out, snp, hout, hsnp, hstored⟩

end Os161
