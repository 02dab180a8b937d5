import Os161.Machine

/-!
# Abstract vnodes

The counters of `vnode.c`. A call that takes `vn_countlock` is one step; what
it leaves to the file system (`VOP_RECLAIM`, `VOP_CLOSE`) is handed back to
the caller as a flag.
-/

namespace Os161

inductive Vop
  | open
  | close
  | reclaim
  | read
  | write
  | fsync
  | truncate
  | creat
  | link
  | remove
  | rename
  | lookup
  | lookparent
  deriving DecidableEq, Repr

inductive FsAssertion
  | refcountPositive
  | opencountPositive
  | lastReference
  | notOpen
  | referencedTwice
  | deviceHasNoFs
  | deviceNotMountable
  | deviceIsThere
  | deviceIsMountable
  | indexInRange
  | bitIsSet
  | bitIsClear
  | partFitsBlock
  | uioIsRead
  | residIsBlock
  | residBeyondEof
  | offsetAligned
  | residBelowBlock
  | isDirectory
  | foundOnce
  | typeNotForced
  | typeIsInval
  | linkcountPositive
  | isRoot
  | isFile
  | superClean
  | freemapClean
  | cwdHasFs
  | prefixFound
  | leadingColon
  deriving DecidableEq, Repr

inductive FsPanic
  | assertionFailed (a : FsAssertion)
  /-- vnode_check: vop_%s: null vnode -/
  | nullVnode (op : Vop)
  /-- vnode_check: vop_%s: negative refcount %d -/
  | negativeRefcount (op : Vop) (refcount : Int)
  /-- vnode_check: vop_%s: zero refcount -/
  | zeroRefcount (op : Vop)
  /-- vnode_check: vop_%s: negative opencount %d -/
  | negativeOpencount (op : Vop) (opencount : Int)
  /-- sfs: reclaim vnode %u not in vnode pool -/
  | notInVnodePool (ino : Nat)
  /-- sfs: balloc: invalid block %u -/
  | ballocInvalidBlock (block : Nat)
  /-- sfs: sfs_bused called on out of range block %u -/
  | busedOutOfRange (block : Nat)
  /-- sfs: Data block %u (block %u of file %u) marked free -/
  | dataBlockFree (block fileblock ino : Nat)
  /-- sfs: readdir: Short entry (inode %u) -/
  | shortEntry (ino : Nat)
  /-- sfs: writedir: Short write (ino %u) -/
  | shortWrite (ino : Nat)
  /-- sfs: directory %u: Invalid size %u -/
  | invalidDirSize (ino size : Nat)
  /-- sfs: Link count of file %u found in dir %u is 0 -/
  | linkCountZero (ino dir : Nat)
  /-- sfs: Found inode %u in unallocated block -/
  | foundInUnallocated (ino : Nat)
  /-- sfs: Tried to load inode %u from unallocated block -/
  | loadFromUnallocated (ino : Nat)
  /-- sfs: loadvnode: Invalid inode type (inode %u, type %u) -/
  | invalidInodeType (ino type : Nat)
  /-- sfs: d_io returned EINVAL -/
  | dIoEinval
  /-- sfs: rename: Cannot recover -/
  | cannotRecover
  /-- sfs: getroot: Cannot load root vnode -/
  | cannotLoadRoot
  | uio (p : Panic)
  /-- A path is read past its end. -/
  | pathOverrun
  /-- The vnode that is used has been destroyed. -/
  | danglingVnode (ino : Nat)
  deriving DecidableEq, Repr

/-! ## Counts -/

@[ext]
structure VnodeCounts where
  vnRefcount : Int
  vnOpencount : Int
  deriving DecidableEq, Repr

def vnodeInit : VnodeCounts := { vnRefcount := 1, vnOpencount := 0 }

def vnodeKill (v : VnodeCounts) : Except FsPanic VnodeCounts :=
  if v.vnRefcount ≠ 1 then .error (.assertionFailed .lastReference)
  else if v.vnOpencount ≠ 0 then .error (.assertionFailed .notOpen)
  else .ok { vnRefcount := 0, vnOpencount := 0 }

def vnodeIncref (v : VnodeCounts) : VnodeCounts := { v with vnRefcount := v.vnRefcount + 1 }

/-- The flag says that `VOP_RECLAIM` is to be called; the last reference is
not taken off here. -/
def vnodeDecref (v : VnodeCounts) : Except FsPanic (VnodeCounts × Bool) :=
  if v.vnRefcount ≤ 0 then .error (.assertionFailed .refcountPositive)
  else if 1 < v.vnRefcount then .ok ({ v with vnRefcount := v.vnRefcount - 1 }, false)
  else .ok (v, true)

def vnodeIncopen (v : VnodeCounts) : VnodeCounts := { v with vnOpencount := v.vnOpencount + 1 }

def vnodeDecopen (v : VnodeCounts) : Except FsPanic (VnodeCounts × Bool) :=
  if v.vnOpencount ≤ 0 then .error (.assertionFailed .opencountPositive)
  else .ok ({ v with vnOpencount := v.vnOpencount - 1 }, decide (v.vnOpencount - 1 ≤ 0))

def vnodeCheck (v : VnodeCounts) (op : Vop) : Except FsPanic Unit :=
  if v.vnRefcount < 0 then .error (.negativeRefcount op v.vnRefcount)
  else if v.vnRefcount = 0 ∧ op ≠ .reclaim then .error (.zeroRefcount op)
  else if v.vnOpencount < 0 then .error (.negativeOpencount op v.vnOpencount)
  else .ok ()

end Os161
