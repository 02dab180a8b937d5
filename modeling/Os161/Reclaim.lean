import Os161.Vnode

/-!
# Threads that look up and drop one vnode

The calls that take and drop references to the vnode of one inode
(`sfs_loadvnode`, `emufs_loadvnode`, `vnode_decref`, `sfs_reclaim`,
`emufs_reclaim`), cut into the sections that run without interruption: those
under `vn_countlock`, and in emufs those under `e_lock`. Each says whether
the device fails in it; `kmalloc` succeeds.
-/

namespace Os161

inductive FsKind
  | sfs
  | emufs
  deriving DecidableEq, Repr

inductive Pending
  /-- `sfs_loadvnode` has found the vnode and calls `VOP_INCREF`. -/
  | found (v : Nat)
  /-- `sfs_loadvnode` has found nothing and loads the inode. -/
  | missed
  /-- `vnode_decref` has seen the last reference and calls `VOP_RECLAIM`. -/
  | decided (v : Nat)
  /-- The reclaim routine has seen the last reference and destroys the vnode. -/
  | checked (v : Nat)
  deriving DecidableEq, Repr

/-- `table` lists the vnodes of the inode in the file system's table, and
`next` is the next one `kmalloc` returns. The last two fields are history:
the references threads hold, and the vnodes destroyed. -/
structure Race where
  vnodes : Nat → VnodeCounts
  table : List Nat
  next : Nat
  pending : List Pending
  held : Nat → Nat
  killed : List Nat

def Race.start : Race where
  vnodes _ := { vnRefcount := 0, vnOpencount := 0 }
  table := []
  next := 0
  pending := []
  held _ := 0
  killed := []

inductive Section
  /-- The search of the table. -/
  | look
  | incref (v : Nat)
  | load
  /-- A thread with a reference takes another. -/
  | share (v : Nat)
  | decref (v : Nat)
  /-- The check of the reclaim routine, in emufs with `emu_close`. -/
  | check (v : Nat) (fails : Bool)
  /-- The rest of the reclaim routine, in sfs with `VOP_TRUNCATE` and
  `sfs_sync_inode`. -/
  | destroy (v : Nat) (fails : Bool)
  deriving DecidableEq, Repr

def Race.ref (s : Race) (v : Nat) : Race :=
  { s with
    vnodes := Function.update s.vnodes v (vnodeIncref (s.vnodes v))
    held := Function.update s.held v (s.held v + 1) }

def Race.add (s : Race) : Race :=
  { s with
    vnodes := Function.update s.vnodes s.next vnodeInit
    table := s.table ++ [s.next]
    next := s.next + 1
    held := Function.update s.held s.next 1 }

/-- `emufs_loadvnode` holds `e_lock` from the search to the end. -/
def Race.look (s : Race) : FsKind → Race
  | .sfs =>
    match s.table with
    | [] => { s with pending := .missed :: s.pending }
    | v :: _ => { s with pending := .found v :: s.pending }
  | .emufs =>
    match s.table with
    | [] => s.add
    | v :: _ => s.ref v

def Race.decref (s : Race) (v : Nat) : Except FsPanic Race := do
  let (c, reclaim) ← vnodeDecref (s.vnodes v)
  .ok { s with
    vnodes := Function.update s.vnodes v c
    held := Function.update s.held v (s.held v - 1)
    pending := if reclaim then .decided v :: s.pending else s.pending }

/-- `s` is the state with the thread's entry taken out of `pending`. -/
def sfsReclaimCheck (s : Race) (v : Nat) : Except FsPanic Race :=
  if (s.vnodes v).vnRefcount ≠ 1 then
    if (s.vnodes v).vnRefcount ≤ 1 then .error (.assertionFailed .referencedTwice)
    else .ok { s with
      vnodes := Function.update s.vnodes v { s.vnodes v with vnRefcount := (s.vnodes v).vnRefcount - 1 } }
  else .ok { s with pending := .checked v :: s.pending }

/-- The reference `VOP_DECREF` gave away is not taken off when there are
others or `emu_close` fails. The vnode leaves the table before `e_lock` is
released. -/
def emufsReclaimCheck (s : Race) (v : Nat) (fails : Bool) : Except FsPanic Race :=
  if (s.vnodes v).vnRefcount ≠ 1 then .ok s
  else if fails then .ok s
  else if v ∉ s.table then .error (.notInVnodePool v)
  else .ok { s with pending := .checked v :: s.pending, table := s.table.erase v }

def Race.kill (s : Race) (v : Nat) : Except FsPanic Race := do
  let c ← vnodeKill (s.vnodes v)
  .ok { s with vnodes := Function.update s.vnodes v c, killed := v :: s.killed }

def sfsReclaimDestroy (s : Race) (v : Nat) (fails : Bool) : Except FsPanic Race :=
  if fails then .ok s
  else if v ∉ s.table then .error (.notInVnodePool v)
  else { s with table := s.table.erase v }.kill v

def Section.continues : Section → Option Pending
  | .look => none
  | .incref v => some (.found v)
  | .load => some .missed
  | .share _ => none
  | .decref _ => none
  | .check v _ => some (.decided v)
  | .destroy v _ => some (.checked v)

def raceStep (k : FsKind) (s : Race) (a : Section) : Except FsPanic Race :=
  match a.continues with
  | some p =>
    if p ∈ s.pending then
      let s := { s with pending := s.pending.erase p }
      match a with
      | .incref v => .ok (s.ref v)
      | .load => .ok s.add
      | .check v fails =>
        match k with
        | .sfs => sfsReclaimCheck s v
        | .emufs => emufsReclaimCheck s v fails
      | .destroy v fails =>
        match k with
        | .sfs => sfsReclaimDestroy s v fails
        | .emufs => s.kill v
      | _ => .ok s
    else .ok s
  | none =>
    match a with
    | .look => .ok (s.look k)
    | .share v => if 0 < s.held v then .ok (s.ref v) else .ok s
    | .decref v => if 0 < s.held v then s.decref v else .ok s
    | _ => .ok s

end Os161
