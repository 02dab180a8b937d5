import Os161.Machine

/-!
# The menu

`strtok_r.c`, and `cmd_dispatch` and `menu_execute` of `menu.c`. The array
`buf` holds the line and what follows it in memory; a pointer into it is an
index, and an access past its end is a fault. Loops are given the rounds they
may take; to need more is a fault too.
-/

namespace Os161

inductive MenuFault
  /-- A character past the end of the array is read. -/
  | overrun
  | argsOverrun
  | endless
  /-- Failure processing kernel arguments -/
  | panic
  deriving DecidableEq, Repr

/-! ## `strtok_r` -/

def charAt (buf : List UInt8) (i : Nat) : Except MenuFault UInt8 :=
  match buf[i]? with
  | none => .error .overrun
  | some ch => .ok ch

def scanWhile (buf : List UInt8) (test : UInt8 → Bool) : Nat → Nat → Except MenuFault Nat
  | 0, _ => .error .endless
  | rounds + 1, p => do
    let ch ← charAt buf p
    if ch ≠ 0 ∧ test ch = true then scanWhile buf test rounds (p + 1) else .ok p

def strtokR (buf : List UInt8) (string : Option Nat) (seps : CString) (context : Option Nat) :
    Except MenuFault (Option Nat × Option Nat × List UInt8) :=
  match string.or context with
  | none => .ok (none, none, buf)
  | some head => do
    let head ← scanWhile buf (fun ch => (strchr seps ch).isSome) buf.length head
    let ch ← charAt buf head
    if ch = 0 then .ok (none, none, buf)
    else do
      let tail ← scanWhile buf (fun ch => (strchr seps ch).isNone) buf.length head
      let ch ← charAt buf tail
      if ch = 0 then .ok (some head, none, buf) else .ok (some head, some (tail + 1), buf.set tail 0)

/-! ## Commands -/

def maxmenuargs : Nat := 16

def InString (buf : List UInt8) (a i : Nat) : Prop := a ≤ i ∧ i ≤ a + strlen (stringAt buf a)

/-- A function of the command table: what the arguments become, and the result. It may
change its argument strings. -/
structure Command where
  func : List UInt8 → List Nat → List UInt8 × Option Errno
  length : ∀ buf args, (func buf args).1.length = buf.length
  within : ∀ buf args i, (∀ a ∈ args, ¬ InString buf a i) → (func buf args).1[i]? = buf[i]?

inductive MenuEvent
  | dispatch (command : List UInt8)
  /-- The function of entry `i` of the table is called. -/
  | call (i : Nat) (args : List (List UInt8))
  /-- Command line has too many words -/
  | tooManyWords
  /-- %s: Command not found -/
  | notFound (name : List UInt8)
  /-- Menu command failed: %s -/
  | failed (result : Errno)
  deriving DecidableEq, Repr

abbrev Cmdtable := List (CString × Command)

def storeArg (args : List Nat) (word : Nat) : Except MenuFault (List Nat) :=
  if args.length < maxmenuargs then .ok (args ++ [word]) else .error .argsOverrun

def blanks : CString := ⟨[32, 9], by decide⟩

def semicolon : CString := ⟨[59], by decide⟩

def gatherArgs : Nat → List UInt8 → Option Nat → Option Nat → List Nat →
    Except MenuFault (Option (List Nat) × List UInt8)
  | 0, _, _, _, _ => .error .endless
  | rounds + 1, buf, string, context, args => do
    let (word, context, buf) ← strtokR buf string blanks context
    match word with
    | none => .ok (some args, buf)
    | some word =>
      if args.length ≥ maxmenuargs then .ok (none, buf)
      else do
        let args ← storeArg args word
        gatherArgs rounds buf none context args

def Cmdtable.lookup (name : List UInt8) : (i : Nat) → Cmdtable → Option (Nat × Command)
  | _, [] => none
  | i, (entry, command) :: cmdtable =>
    if entry.chars ≠ [] ∧ name = entry.chars then some (i, command) else lookup name (i + 1) cmdtable

def cmdDispatch (cmdtable : Cmdtable) (buf : List UInt8) (cmd : Nat) :
    Except MenuFault (Option Errno × List UInt8 × List MenuEvent) := do
  let (args, buf) ← gatherArgs (buf.length + 1) buf (some cmd) none []
  match args with
  | none => .ok (some .e2big, buf, [.tooManyWords])
  | some [] => .ok (none, buf, [])
  | some (arg :: args) =>
    match cmdtable.lookup (stringAt buf arg).chars 0 with
    | some (i, command) =>
      let (buf', result) := command.func buf (arg :: args)
      .ok (result, buf', [.call i ((arg :: args).map fun a => (stringAt buf a).chars)])
    | none => .ok (some .einval, buf, [.notFound (stringAt buf arg).chars])

def menuLoop (cmdtable : Cmdtable) (isargs : Bool) :
    Nat → List UInt8 → Option Nat → Option Nat → Except MenuFault (List UInt8 × List MenuEvent)
  | 0, _, _, _ => .error .endless
  | rounds + 1, buf, string, context => do
    let (command, context, buf) ← strtokR buf string semicolon context
    match command with
    | none => .ok (buf, [])
    | some command =>
      let (result, buf', events) ← cmdDispatch cmdtable buf command
      let events := .dispatch (stringAt buf command).chars :: events
      match result with
      | some e =>
        if isargs = true then .error .panic
        else do
          let (buf, rest) ← menuLoop cmdtable isargs rounds buf' none context
          .ok (buf, events ++ .failed e :: rest)
      | none => do
        let (buf, rest) ← menuLoop cmdtable isargs rounds buf' none context
        .ok (buf, events ++ rest)

def menuExecute (cmdtable : Cmdtable) (buf : List UInt8) (line : Nat) (isargs : Bool) :
    Except MenuFault (List UInt8 × List MenuEvent) :=
  menuLoop cmdtable isargs (buf.length + 1) buf (some line) none

end Os161
