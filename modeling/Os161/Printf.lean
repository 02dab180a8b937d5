import Os161.Machine

/-!
# Formatted output

`__printf.c`, `snprintf.c` and `atoi.c`. `send` takes the characters that are
printed and changes what belongs to the caller. `int`, `long` and pointers
have 32 bits; field widths and numbers of characters are below `2 ^ 31`.
-/

namespace Os161

inductive PfFault
  | assertion
  | badArg
  | underrun
  deriving DecidableEq, Repr

inductive VaArg
  | word (w : BitVec 32)
  | string (s : Option CString)

inductive PfSize
  | int
  | long
  deriving DecidableEq, Repr

def ascii (l : List Char) : List UInt8 := l.map Char.toUInt8

structure PfField where
  inPct : Bool
  size : PfSize
  num : BitVec 32
  sign : Bool
  spacing : Nat
  rightspc : Bool
  fillchar : UInt8
  base : Nat
  baseprefix : Bool
  altformat : Bool
  deriving DecidableEq, Repr

structure PF (σ : Type) extends PfField where
  clientdata : σ
  ap : List VaArg
  charcount : Nat

def pfEndfield : PfField where
  inPct := false
  size := .int
  num := 0
  sign := false
  spacing := 0
  rightspc := false
  fillchar := ' '.toUInt8
  base := 0
  baseprefix := false
  altformat := false

/-- `long long` is not used, so a second `l` changes nothing. -/
def pfModifier (pf : PfField) (ch : UInt8) : Except PfFault PfField :=
  if ch = '#'.toUInt8 then .ok { pf with altformat := true }
  else if ch = '-'.toUInt8 then .ok { pf with rightspc := true }
  else if ch = 'l'.toUInt8 then .ok { pf with size := .long }
  else if ch = 'q'.toUInt8 then .ok { pf with size := .long }
  else if ch = '0'.toUInt8 then
    if pf.spacing > 0 then .ok { pf with spacing := pf.spacing * 10 } else .ok { pf with fillchar := '0'.toUInt8 }
  else if ch > '0'.toUInt8 ∧ ch ≤ '9'.toUInt8 then
    .ok { pf with spacing := pf.spacing * 10 + (ch - '0'.toUInt8).toNat }
  else .error .assertion

def pfBase (ch : UInt8) (base : Nat) : Nat :=
  if ch = 'd'.toUInt8 ∨ ch = 'u'.toUInt8 then 10
  else if ch = 'x'.toUInt8 ∨ ch = 'p'.toUInt8 then 16
  else if ch = 'o'.toUInt8 then 8
  else base

def pfSetbase (pf : PfField) (ch : UInt8) : PfField :=
  { pf with base := pfBase ch pf.base, baseprefix := pf.baseprefix || pf.altformat || ch = 'p'.toUInt8 }

def pfStorenum (pf : PfField) (ch : UInt8) (w : BitVec 32) : PfField :=
  if ch = 'd'.toUInt8 ∧ w.toInt < 0 then { pf with sign := true, num := -w } else { pf with num := w }

/-! ## Digits -/

def pfDigits : List UInt8 :=
  ascii ['0', '1', '2', '3', '4', '5', '6', '7', '8', '9', 'a', 'b', 'c', 'd', 'e', 'f']

def numberBufSize : Nat := 4 * 8 / 3 + 2

def numberText (base : Nat) : Nat → Nat → List UInt8 → Except PfFault (List UInt8)
  | 0, _, _ => .error .underrun
  | slots + 1, xnum, x =>
    let x := pfDigits.getD (xnum % base) 0 :: x
    if xnum / base > 0 then numberText base slots (xnum / base) x else .ok x

def pfBaseText (pf : PfField) : List UInt8 :=
  if pf.baseprefix = true ∧ pf.base = 16 then ascii ['0', 'x']
  else if pf.baseprefix = true ∧ pf.base = 8 then ascii ['0']
  else []

def pfSignText (pf : PfField) : List UInt8 := if pf.sign = true then ascii ['-'] else []

/-! ## Printing -/

section
variable {σ : Type} (send : σ → List UInt8 → σ)

def pfPrint (pf : PF σ) (txt : List UInt8) : PF σ :=
  { pf with clientdata := send pf.clientdata txt, charcount := pf.charcount + txt.length }

def pfFill (pf : PF σ) : Nat → PF σ
  | 0 => pf
  | spc + 1 => pfFill (pfPrint send pf [pf.fillchar]) spc

def pfFillIf (pf : PF σ) (c : Prop) [Decidable c] (spc : Nat) : PF σ := if c then pfFill send pf spc else pf

def pfPrintstuff (pf : PF σ) (pfx pfx2 stuff : List UInt8) : PF σ :=
  let len := pfx.length + pfx2.length + stuff.length
  let spc := if pf.spacing > len then pf.spacing - len else 0
  let pf := pfFillIf send pf (spc > 0 ∧ pf.rightspc = false ∧ pf.fillchar ≠ '0'.toUInt8) spc
  let pf := pfPrint send pf pfx
  let pf := pfPrint send pf pfx2
  let pf := pfFillIf send pf (spc > 0 ∧ pf.rightspc = false ∧ pf.fillchar = '0'.toUInt8) spc
  let pf := pfPrint send pf stuff
  pfFillIf send pf (spc > 0 ∧ pf.rightspc = true) spc

def pfPrintnum (pf : PF σ) : Except PfFault (PF σ) := do
  let x ← numberText pf.base (numberBufSize - 1) pf.num.toNat []
  .ok (pfPrintstuff send pf (pfSignText pf.toPfField) (pfBaseText pf.toPfField) x)

def pfModifiers : List UInt8 := ascii ['#', '-', 'q', 'l', '0', '1', '2', '3', '4', '5', '6', '7', '8', '9']

def pfIntegers : List UInt8 := ascii ['d', 'o', 'u', 'p', 'x']

def vaWord : List VaArg → Except PfFault (BitVec 32 × List VaArg)
  | .word w :: ap => .ok (w, ap)
  | _ => .error .badArg

def vaString : List VaArg → Except PfFault (Option CString × List VaArg)
  | .string s :: ap => .ok (s, ap)
  | _ => .error .badArg

/-- `char x[2]` with `x[1] = 0`: the string is empty if the character is NUL. -/
def charString (ch : UInt8) : List UInt8 := if ch = 0 then [] else [ch]

def pfSend (pf : PF σ) (ch : UInt8) : Except PfFault (PF σ) :=
  if ch = 0 then .error .assertion
  else if pf.inPct = false ∧ ch ≠ '%'.toUInt8 then .ok (pfPrint send pf [ch])
  else if pf.inPct = false then .ok { pf with inPct := true }
  else if pfModifiers.contains ch = true then do
    let field ← pfModifier pf.toPfField ch
    .ok { pf with toPfField := field }
  else if pfIntegers.contains ch = true then do
    let (w, ap) ← vaWord pf.ap
    let pf ← pfPrintnum send { pf with toPfField := pfSetbase (pfStorenum pf.toPfField ch w) ch, ap := ap }
    .ok { pf with toPfField := pfEndfield }
  else if ch = 's'.toUInt8 then do
    let (str, ap) ← vaString pf.ap
    let str := match str with
      | some str => str.chars
      | none => ascii ['(', 'n', 'u', 'l', 'l', ')']
    .ok { pfPrintstuff send { pf with ap := ap } [] [] str with toPfField := pfEndfield }
  else if ch = 'c'.toUInt8 then do
    let (w, ap) ← vaWord pf.ap
    .ok { pfPrintstuff send { pf with ap := ap } [] [] (charString (UInt8.ofNat w.toNat)) with toPfField := pfEndfield }
  else .ok { pfPrintstuff send pf [] [] (charString ch) with toPfField := pfEndfield }

def vprintf (clientdata : σ) (format : CString) (ap : List VaArg) : Except PfFault (Nat × σ) := do
  let pf ← format.chars.foldlM (pfSend send) { pfEndfield with clientdata := clientdata, ap := ap, charcount := 0 }
  .ok (pf.charcount, pf.clientdata)

end

/-! ## `snprintf` -/

/-- `stored` are the indices that have been written. -/
structure SNP where
  buf : Nat → UInt8
  stored : List Nat
  buflen : Nat
  bufpos : Nat

def SNP.store (snp : SNP) (i : Nat) (ch : UInt8) : SNP :=
  { snp with buf := Function.update snp.buf i ch, stored := snp.stored ++ [i] }

def snprintfSend (snp : SNP) (data : List UInt8) : SNP :=
  data.foldl (fun snp ch =>
    if snp.bufpos < snp.buflen then { snp.store snp.bufpos ch with bufpos := snp.bufpos + 1 } else snp) snp

/-- The last byte is kept for the terminator. -/
def snpInit (buf : Nat → UInt8) (len : Nat) : SNP where
  buf := buf
  stored := []
  buflen := if len = 0 then 0 else len - 1
  bufpos := 0

def vsnprintf (buf : Nat → UInt8) (len : Nat) (fmt : CString) (ap : List VaArg) : Except PfFault (Nat × SNP) := do
  let (chars, snp) ← vprintf snprintfSend (snpInit buf len) fmt ap
  if len > 0 then .ok (chars, snp.store snp.bufpos 0) else .ok (chars, snp)

/-! ## `atoi` -/

def decimalDigits : List UInt8 := ascii ['0', '1', '2', '3', '4', '5', '6', '7', '8', '9']

def atoiLoop : BitVec 32 → List UInt8 → BitVec 32
  | val, [] => val
  | val, ch :: s =>
    match decimalDigits.findIdx? (· == ch) with
    | none => val
    | some digit => atoiLoop (val * 10 + BitVec.ofNat 32 digit) s

/-- `s` are the characters up to the terminator. -/
def atoi (s : List UInt8) : BitVec 32 :=
  match s.dropWhile fun ch => ch == ' '.toUInt8 || ch == '\t'.toUInt8 with
  | [] => 0
  | ch :: s =>
    if ch = '-'.toUInt8 then -atoiLoop 0 s
    else if ch = '+'.toUInt8 then atoiLoop 0 s
    else atoiLoop 0 (ch :: s)

end Os161
