import Os161.Vnode

/-!
# The table of named devices

`vfslist.c`. An entry of `knowndevs` has the name of the device, the name of
its raw device if it can be mounted, and the file system on it. What the file
system's own routines return is an argument of each call.
-/

namespace Os161

structure Fs where
  id : Nat
  volname : Option String
  deriving DecidableEq, Repr

structure Knowndev where
  kdName : String
  kdRawname : Option String
  kdDevice : Option Nat
  kdVnode : Nat
  kdFs : Option Fs
  deriving DecidableEq, Repr

inductive Root
  | fs (fs : Fs)
  | device (vnode : Nat)
  deriving DecidableEq, Repr

def vfsGetroot : List Knowndev → String → Except FsPanic (Except Errno Root)
  | [], _ => .ok (.error .enodev)
  | kd :: devs, devname =>
    match kd.kdFs with
    | some fs =>
      if kd.kdName = devname ∨ fs.volname = some devname then .ok (.ok (.fs fs))
      else if kd.kdName = devname then .error (.assertionFailed .deviceHasNoFs)
      else if kd.kdRawname = some devname then
        if kd.kdDevice = none then .error (.assertionFailed .deviceIsThere) else .ok (.ok (.device kd.kdVnode))
      else vfsGetroot devs devname
    | none =>
      if kd.kdRawname ≠ none ∧ kd.kdName = devname then .ok (.error .enxio)
      else if kd.kdName = devname then
        if kd.kdRawname ≠ none then .error (.assertionFailed .deviceNotMountable)
        else if kd.kdDevice = none then .error (.assertionFailed .deviceIsThere)
        else .ok (.ok (.device kd.kdVnode))
      else if kd.kdRawname = some devname then
        if kd.kdDevice = none then .error (.assertionFailed .deviceIsThere) else .ok (.ok (.device kd.kdVnode))
      else vfsGetroot devs devname

def mkrawname (name : String) : String := name ++ "raw"

def samestring (a b : Option String) : Bool :=
  match a, b with
  | some a, some b => a == b
  | _, _ => false

def samestring3 (a b c d : Option String) : Bool := samestring a b || samestring a c || samestring a d

def badnames (devs : List Knowndev) (n1 n2 n3 : Option String) : Bool :=
  devs.any fun kd =>
    (match kd.kdFs with
      | some fs => samestring3 fs.volname n1 n2 n3
      | none => false) ||
    samestring3 kd.kdRawname n1 n2 n3 || samestring3 (some kd.kdName) n1 n2 n3

/-- Which allocations of `vfs_doadd` succeed, and the vnode `dev_create_vnode`
makes. -/
structure AddMemory where
  name : Bool
  rawname : Bool
  vnode : Option Nat
  kd : Bool
  slot : Bool

def vfsDoadd (devs : List Knowndev) (dname : String) (mountable : Bool) (dev : Option Nat) (fs : Option Fs)
    (mem : AddMemory) : Option Errno × List Knowndev :=
  if mem.name = false then (some .enomem, devs)
  else if mountable = true ∧ mem.rawname = false then (some .enomem, devs)
  else
    let rawname := if mountable then some (mkrawname dname) else none
    match mem.vnode with
    | none => (some .enomem, devs)
    | some vnode =>
      if mem.kd = false then (some .enomem, devs)
      else
        let kd : Knowndev := { kdName := dname, kdRawname := rawname, kdDevice := dev, kdVnode := vnode, kdFs := fs }
        let volname := fs.bind Fs.volname
        if badnames devs (some dname) rawname volname then (some .eexist, devs)
        else if mem.slot = false then (some .enomem, devs)
        else (none, devs ++ [kd])

def vfsAdddev (devs : List Knowndev) (devname : String) (dev : Nat) (mountable : Bool) (mem : AddMemory) :
    Option Errno × List Knowndev := vfsDoadd devs devname mountable (some dev) none mem

def vfsAddfs (devs : List Knowndev) (devname : String) (fs : Fs) (mem : AddMemory) : Option Errno × List Knowndev :=
  vfsDoadd devs devname false none (some fs) mem

def findmount (devs : List Knowndev) (devname : String) : Option Nat :=
  devs.findIdx? fun kd => kd.kdRawname.isSome && kd.kdName == devname

def vfsMount (devs : List Knowndev) (devname : String) (mountfunc : Nat → Except Errno Fs) :
    Except FsPanic (Option Errno × List Knowndev) :=
  match findmount devs devname with
  | none => .ok (some .enodev, devs)
  | some i =>
    match devs[i]? with
    | none => .ok (some .enodev, devs)
    | some kd =>
      if kd.kdFs ≠ none then .ok (some .ebusy, devs)
      else if kd.kdRawname = none then .error (.assertionFailed .deviceIsMountable)
      else
        match kd.kdDevice with
        | none => .error (.assertionFailed .deviceIsThere)
        | some dev =>
          match mountfunc dev with
          | .error e => .ok (some e, devs)
          | .ok fs => .ok (none, devs.set i { kd with kdFs := some fs })

def vfsUnmount (devs : List Knowndev) (devname : String) (sync unmount : Option Errno) :
    Except FsPanic (Option Errno × List Knowndev) :=
  match findmount devs devname with
  | none => .ok (some .enodev, devs)
  | some i =>
    match devs[i]? with
    | none => .ok (some .enodev, devs)
    | some kd =>
      if kd.kdFs = none then .ok (some .einval, devs)
      else if kd.kdRawname = none then .error (.assertionFailed .deviceIsMountable)
      else if kd.kdDevice = none then .error (.assertionFailed .deviceIsThere)
      else
        match sync, unmount with
        | some e, _ => .ok (some e, devs)
        | none, some e => .ok (some e, devs)
        | none, none => .ok (none, devs.set i { kd with kdFs := none })

/-- A device that does not sync is tried once more, and one that does not
unmount keeps its file system. -/
def vfsUnmountall (devs : List Knowndev) (sync sync' unmount : Fs → Option Errno) : List Knowndev :=
  devs.map fun kd =>
    match kd.kdRawname, kd.kdFs with
    | some _, some fs =>
      if (sync fs ≠ none ∧ sync' fs ≠ none) ∨ unmount fs ≠ none then kd else { kd with kdFs := none }
    | _, _ => kd

end Os161
