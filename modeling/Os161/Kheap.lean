import Mathlib.Data.BitVec
import Os161.Machine

/-!
# The kernel heap

`lib/kheap.c` once the VM system is up. A `struct pageref *` is an index into
`pagerefs`, and NULL is `none`. Memory is kept by words: `mem a` is the word
at address `a`, where a free block holds the address of the next one or 0.
Pages have addresses in KSEG0, so that no address computation wraps. What
`alloc_kpages` does is a parameter, and the consistency checks under `SLOW`
are off.
-/

namespace Os161

def sizes : List Nat := [16, 32, 64, 128, 256, 512, 1024, 2048]

def nsizes : Nat := 8

def largestSubpageSize : Nat := 2048

def invalidOffset : Nat := 0xffff

def npagerefs : Nat := 256

def inuseWords : Nat := 8

def blockSize (blktype : Nat) : Nat := sizes.getD blktype 0

structure Pageref where
  nextSamesize : Option Nat
  nextAll : Option Nat
  pageaddrAndBlocktype : Nat
  freelistOffset : Nat
  nfree : Nat

def Pageref.pageaddr (pr : Pageref) : Nat := pr.pageaddrAndBlocktype &&& pageFrame

def Pageref.blocktype (pr : Pageref) : Nat := pr.pageaddrAndBlocktype &&& 0xfff

def mkpab (pa blk : Nat) : Nat := pa &&& pageFrame ||| blk &&& 0xfff

structure Kheap where
  pagerefs : Nat → Pageref
  pagerefsInuse : List (BitVec 32)
  sizebases : Nat → Option Nat
  allbase : Option Nat
  mem : Nat → Nat

inductive HeapFault
  | assertion
  /-- Subpage allocator cannot handle allocation of this size. -/
  | cannotHandle
  /-- A list of page references goes on for ever. -/
  | endless
  | pages (why : Panic)
  deriving DecidableEq, Repr

def Kheap.modify (h : Kheap) (pr : Nat) (f : Pageref → Pageref) : Kheap :=
  { h with pagerefs := Function.update h.pagerefs pr (f (h.pagerefs pr)) }

def Kheap.store (h : Kheap) (addr word : Nat) : Kheap := { h with mem := Function.update h.mem addr word }

/-! ## Page references -/

def firstClear (w : BitVec 32) : Option Nat := (List.range 32).find? fun j => w &&& 1#32 <<< j == 0#32

def allocpageref (h : Kheap) : Except HeapFault (Option Nat × Kheap) :=
  match (List.range inuseWords).find? fun i => h.pagerefsInuse.getD i 0 != 0xffffffff#32 with
  | none => .ok (none, h)
  | some i =>
    let w := h.pagerefsInuse.getD i 0
    match firstClear w with
    | none => .error .assertion
    | some j => .ok (some (i * 32 + j), { h with pagerefsInuse := h.pagerefsInuse.set i (w ||| 1#32 <<< j) })

def freepageref (h : Kheap) (p : Nat) : Except HeapFault Kheap :=
  if p < npagerefs then
    let w := h.pagerefsInuse.getD (p / 32) 0
    let k := 1#32 <<< (p % 32)
    if w &&& k ≠ 0#32 then .ok { h with pagerefsInuse := h.pagerefsInuse.set (p / 32) (w &&& ~~~k) }
    else .error .assertion
  else .error .assertion

/-! ## Blocks -/

def blocktype (sz : Nat) : Except HeapFault Nat :=
  match (List.range nsizes).find? fun i => sz ≤ blockSize i with
  | some i => .ok i
  | none => .error .cannotHandle

def findPage (h : Kheap) (blktype : Nat) : Nat → Option Nat → Except HeapFault (Option Nat)
  | _, none => .ok none
  | 0, some _ => .error .endless
  | fuel + 1, some pr =>
    if (h.pagerefs pr).blocktype = blktype then
      if 0 < (h.pagerefs pr).nfree then .ok (some pr)
      else findPage h blktype fuel (h.pagerefs pr).nextSamesize
    else .error .assertion

def doalloc (h : Kheap) (pr : Nat) : Except HeapFault (Nat × Kheap) :=
  let r := h.pagerefs pr
  if r.freelistOffset < pageSize then
    let prpage := r.pageaddr
    let fl := prpage + r.freelistOffset
    let next := h.mem fl
    let nfree := r.nfree - 1
    if next ≠ 0 then
      if 0 < nfree ∧ prpage ≤ next ∧ next - prpage < pageSize then
        .ok (fl, h.modify pr fun r => { r with nfree := nfree, freelistOffset := next - prpage })
      else .error .assertion
    else if nfree = 0 then
      .ok (fl, h.modify pr fun r => { r with nfree := nfree, freelistOffset := invalidOffset })
    else .error .assertion
  else .error .assertion

def linkBlocks (h : Kheap) (prpage size : Nat) : Nat → Except HeapFault Kheap
  | 0 => .ok (h.store prpage 0)
  | i + 1 => do
    let h ← linkBlocks h prpage size i
    let fl := prpage + (i + 1) * size
    let next := prpage + i * size
    if fl ≠ next then .ok (h.store fl next) else .error .assertion

def newPage (h : Kheap) (pr prpage blktype : Nat) : Except HeapFault Kheap := do
  let nfree := pageSize / blockSize blktype
  let h ← linkBlocks h prpage (blockSize blktype) (nfree - 1)
  let fla := prpage + (nfree - 1) * blockSize blktype
  if fla - prpage = (nfree - 1) * blockSize blktype then
    let h := h.modify pr fun _ => {
      nextSamesize := h.sizebases blktype
      nextAll := h.allbase
      pageaddrAndBlocktype := mkpab prpage blktype
      freelistOffset := fla - prpage
      nfree := nfree }
    .ok { h with sizebases := Function.update h.sizebases blktype (some pr), allbase := some pr }
  else .error .assertion

section
variable {σ : Type} (allocKpages : Nat → σ → Except HeapFault (Nat × σ))

/-- The address is 0 for NULL. -/
def subpageKmalloc (h : Kheap) (s : σ) (sz : Nat) : Except HeapFault (Nat × Kheap × σ) := do
  let blktype ← blocktype sz
  match ← findPage h blktype npagerefs (h.sizebases blktype) with
  | some pr =>
    let (ptr, h) ← doalloc h pr
    .ok (ptr, h, s)
  | none =>
    match ← allocpageref h with
    | (none, h) => .ok (0, h, s)
    | (some pr, h) =>
      let (prpage, s) ← allocKpages 1 s
      if prpage = 0 then
        let h ← freepageref h pr
        .ok (0, h, s)
      else
        let h ← newPage h pr prpage blktype
        let (ptr, h) ← doalloc h pr
        .ok (ptr, h, s)

def kmalloc (h : Kheap) (s : σ) (sz : Nat) : Except HeapFault (Nat × Kheap × σ) :=
  if sz ≥ largestSubpageSize then do
    let npages := u32 (sz + pageSize - 1) / pageSize
    let (address, s) ← allocKpages npages s
    .ok (address, h, s)
  else subpageKmalloc allocKpages h s sz

end

def kernelPage (page : Nat) : Prop := page % pageSize = 0 ∧ 0x80000000 ≤ page ∧ page < 0xa0000000

def heapStart (pagerefs : Nat → Pageref) (mem : Nat → Nat) : Kheap where
  pagerefs := pagerefs
  pagerefsInuse := List.replicate inuseWords 0
  sizebases _ := none
  allbase := none
  mem := mem

end Os161
