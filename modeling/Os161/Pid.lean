import Os161.Machine

/-!
# Process ids

`new_pid`, `pid_change_status` and the calls built on it
(`userprog/process_syscall.c`). `mem` says whether `kmalloc` returns memory,
which no call checks. Each call runs with interrupts off.
-/

namespace Os161

def pidFree : Nat := 0

def pidParent : Nat := 1

def pidExited : Nat := 2

def pidNew : Nat := 3

def minPid : Nat := 100

structure PidClist where
  pid : Nat
  status : Nat
  deriving DecidableEq, Repr

structure Pids where
  unusedPids : Nat
  recycledPids : List Nat
  unavailablePids : List PidClist
  deriving DecidableEq, Repr

def Pids.start : Pids where
  unusedPids := minPid
  recycledPids := []
  unavailablePids := []

inductive PidFault
  /-- assert(unused_pids < 0x7FFFFFFF) -/
  | unusedInRange
  /-- assert(unavailable_pids != NULL) -/
  | unavailableNotNull
  /-- assert(found) -/
  | found
  /-- The loop reads `p->next` with `p == NULL`, or a call fills in a `new_entry` that is NULL. -/
  | nullPointer
  deriving DecidableEq, Repr

def newPid (mem : Bool) (s : Pids) : Except PidFault (Nat × Pids) :=
  match s.recycledPids with
  | [] =>
    if s.unusedPids ≥ 0x7FFFFFFF then .error .unusedInRange
    else if mem = false then .error .nullPointer
    else
      .ok (s.unusedPids, { s with
        unavailablePids := ⟨s.unusedPids, pidNew⟩ :: s.unavailablePids
        unusedPids := s.unusedPids + 1 })
  | first :: rest =>
    if mem = false then .error .nullPointer
    else
      .ok (first, { s with
        recycledPids := rest
        unavailablePids := ⟨first, pidNew⟩ :: s.unavailablePids })

/-- The loop of `pid_change_status`. The first list is the chain from
`p->next`; the result is what `p->next` leads to afterwards, with the recycled
pids and `found`. -/
def pidChangeLoop (x andMask : Nat) (mem : Bool) :
    List PidClist → List Nat → Bool → Except PidFault (List PidClist × List Nat × Bool)
  | [], recycled, found => .ok ([], recycled, found)
  | [e], recycled, found =>
    if e.pid = x then
      -- with its last entry unlinked the chain ends, and the loop goes on from NULL
      if e.status &&& andMask = pidFree then .error .nullPointer
      else .ok ([{ e with status := e.status &&& andMask }], recycled, true)
    else .ok ([e], recycled, found)
  | e :: e' :: rest, recycled, found =>
    if e.pid = x then
      if e.status &&& andMask = pidFree then
        if mem = false then .error .nullPointer
        else do
          -- `p` moves over the entry behind the one unlinked
          let (l, r, f) ← pidChangeLoop x andMask mem rest (x :: recycled) true
          .ok (e' :: l, r, f)
      else do
        let (l, r, f) ← pidChangeLoop x andMask mem (e' :: rest) recycled true
        .ok ({ e with status := e.status &&& andMask } :: l, r, f)
    else do
      let (l, r, f) ← pidChangeLoop x andMask mem (e' :: rest) recycled found
      .ok (e :: l, r, f)

def pidChangeStatus (x andMask : Nat) (mem : Bool) (s : Pids) : Except PidFault Pids :=
  match s.unavailablePids with
  | [] => .error .unavailableNotNull
  | e :: rest =>
    if e.pid = x then
      if e.status &&& andMask = pidFree then
        if mem = false then .error .nullPointer
        else .ok { s with recycledPids := x :: s.recycledPids, unavailablePids := rest }
      else .ok { s with unavailablePids := { e with status := e.status &&& andMask } :: rest }
    else do
      let (l, r, found) ← pidChangeLoop x andMask mem rest s.recycledPids false
      if found then .ok { s with recycledPids := r, unavailablePids := e :: l }
      else .error .found

def pidParentDone (x : Nat) : Bool → Pids → Except PidFault Pids := pidChangeStatus x pidParent

def pidProcessExit (x : Nat) : Bool → Pids → Except PidFault Pids := pidChangeStatus x pidExited

def pidFreeCall (x : Nat) : Bool → Pids → Except PidFault Pids := pidChangeStatus x pidFree

def pidClaimed (x : Nat) (s : Pids) : Bool := s.unavailablePids.any (fun p => p.pid == x)

/-! ## Runs -/

inductive PidCall
  | parentDone
  | processExit
  | free
  deriving DecidableEq, Repr

def PidCall.run : PidCall → Nat → Bool → Pids → Except PidFault Pids
  | .parentDone => pidParentDone
  | .processExit => pidProcessExit
  | .free => pidFreeCall

inductive PidOp
  | newPid (mem : Bool)
  | call (c : PidCall) (x : Nat) (mem : Bool)
  deriving DecidableEq, Repr

inductive PidEvent
  | handedOut (x : Nat)
  | called (c : PidCall) (x : Nat)
  deriving DecidableEq, Repr

structure PidRun where
  pids : Pids
  log : List PidEvent
  deriving DecidableEq, Repr

def PidRun.start : PidRun where
  pids := .start
  log := []

def pidStep (r : PidRun) : PidOp → Except PidFault PidRun
  | .newPid mem => do
    let (x, s) ← Os161.newPid mem r.pids
    .ok { pids := s, log := .handedOut x :: r.log }
  | .call c x mem => do
    let s ← c.run x mem r.pids
    .ok { pids := s, log := .called c x :: r.log }

def PidOp.callable (r : PidRun) : PidOp → Prop
  | .newPid _ => True
  | .call _ x _ => pidClaimed x r.pids = true

def since (x : Nat) (log : List PidEvent) : List PidEvent := log.takeWhile (fun ev => ev ≠ .handedOut x)

def BothDone (x : Nat) (evs : List PidEvent) : Prop :=
  (.called .parentDone x ∈ evs ∧ .called .processExit x ∈ evs) ∨ .called .free x ∈ evs

end Os161
