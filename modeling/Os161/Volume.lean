import Os161.Vnode
import Os161.Lib.Table

/-!
# What a volume is

The files of a volume as byte arrays, by inode number, and the vnodes in
memory with their counts.
-/

namespace Os161

@[ext]
structure FileView where
  size : Nat
  type : Nat
  linkcount : Nat
  bytes : Nat → UInt8

structure Vol where
  live : Nat → Prop
  view : Nat → FileView
  table : List (Nat × VnodeCounts)

namespace Vol

def counts (a : Vol) (i : Nat) : Option VnodeCounts := (Table.get Prod.fst a.table i).map Prod.snd

def Loaded (a : Vol) (i : Nat) : Prop := ∃ v, a.counts i = some v

def setView (a : Vol) (i : Nat) (v : FileView) : Vol := { a with view := Function.update a.view i v }

def setBytes (a : Vol) (i : Nat) (bytes : Nat → UInt8) : Vol := a.setView i { a.view i with bytes := bytes }

def setSize (a : Vol) (i size : Nat) : Vol := a.setView i { a.view i with size := size }

def setCounts (a : Vol) (i : Nat) (c : VnodeCounts) : Vol :=
  { a with table := Table.modify Prod.fst a.table i fun p => (p.1, c) }

def load (a : Vol) (i : Nat) : Vol :=
  match a.counts i with
  | some v => a.setCounts i (vnodeIncref v)
  | none => { a with table := a.table ++ [(i, vnodeInit)] }

def make (a : Vol) (i type : Nat) : Vol where
  live j := a.live j ∨ j = i
  view := Function.update a.view i { size := 0, type := type, linkcount := 0, bytes := fun _ => 0 }
  table := a.table ++ [(i, vnodeInit)]

def unload (a : Vol) (i : Nat) : Vol :=
  { a with
    live := fun j => a.live j ∧ (j = i → (a.view i).linkcount ≠ 0)
    table := Table.remove Prod.fst a.table i }

def drop (a : Vol) (i : Nat) : Vol :=
  match a.counts i with
  | some v => if 1 < v.vnRefcount then a.setCounts i { v with vnRefcount := v.vnRefcount - 1 } else a.unload i
  | none => a

def setLinkcount (a : Vol) (i n : Nat) : Vol := a.setView i { a.view i with linkcount := n }

end Vol

end Os161
