import Os161.Elf
import Os161.LoadelfSound

/-!
# Where a program's segments are placed

`load_elf` takes the program headers of a file as they come: each becomes a
segment, with 32-bit arithmetic and without a look at the kernel, the stack or
the other segments.
-/

namespace Os161

open Bytes Outcome

variable {f : ExecFile} {eh : Ehdr} {as as' : AddrSpace} {pds pds' : PdPtr → PageDetail} {blocks : List Nat} {n i : Nat}

/-! ## Reading headers -/

theorem vopRead_short {file : List UInt8} (buf : Nat → UInt8) {n : Nat} {u : Uio} (hrw : u.uioRw = .read)
    (hres : u.uioResid = n) (hlen : u.iovLen = n) (hn : n < 2 ^ 32)
    (hfile : u.uioOffset < 0 ∨ file.length < u.uioOffset.toNat + n) (hpos : 0 < n) :
    ∃ b u', vopRead file buf u = .ok (b, u') ∧ u'.uioResid ≠ 0 := by
  unfold vopRead
  by_cases hoff : 0 ≤ u.uioOffset
  · rw [if_pos hoff]
    have hshort : file.length < u.uioOffset.toNat + n := hfile.resolve_left (by omega)
    generalize hm : min u.uioResid (file.length - u.uioOffset.toNat) = m
    by_cases h0 : m = 0
    · refine ⟨buf, u, ?_, by omega⟩
      dsimp only
      rw [hm, h0]
      rfl
    · dsimp only
      rw [hm, uiomove_read hrw (by omega) (by omega) (by omega), ok_bind]
      refine ⟨_, u.advance m, rfl, ?_⟩
      show u32 (u.uioResid + 2 ^ 32 - m) ≠ 0
      rw [u32_sub (by omega) (by omega)]
      omega
  · rw [if_neg hoff]
    exact ⟨buf, u, rfl, by omega⟩

theorem readHeader_spec (f : ExecFile) (k : Nat) (offset : Int) (size : Nat) (hpos : 0 < size) (hsize : size < 2 ^ 32) :
    ∃ r, readHeader f k offset size = .ok r ∧
      ∀ b, r = .ok b → ∀ x < size, b x = f.data.getD (offset.toNat + x) 0 := by
  unfold readHeader
  cases f.fails k with
  | some e => exact ⟨.error e, rfl, nofun⟩
  | none =>
    let u : Uio := { iovKbase := 0, iovLen := size, uioOffset := offset, uioResid := size, uioRw := .read }
    by_cases hshort : offset < 0 ∨ f.data.length < offset.toNat + size
    · obtain ⟨b, u', he, hres⟩ := vopRead_short (fun _ => 0) (u := u) rfl rfl rfl hsize hshort hpos
      refine ⟨.error .enoexec, ?_, nofun⟩
      dsimp only
      rw [he, ok_bind]
      exact if_pos hres
    · have hoff : u.uioOffset = (offset.toNat : Int) := by show offset = _; omega
      obtain ⟨u', he, -, hres, -⟩ := @vopRead_eq f.data (fun _ => 0) _ _ u rfl hoff rfl hpos (Nat.le_refl _)
        (show offset.toNat + size ≤ f.data.length by omega)
      refine ⟨.ok (copyBytes (fun _ => 0) 0 (fun i => f.data.getD (offset.toNat + i) 0) 0 size), ?_,
        fun b hb x hx => ?_⟩
      · dsimp only
        rw [he, ok_bind]
        exact if_neg (by simp [hres])
      · obtain rfl := Except.ok.inj hb
        simp only [copyBytes, Nat.zero_le, Nat.zero_add, true_and, hx, if_true, Nat.sub_zero]

theorem readPhdr_congr {b b' : Mem} (h : ∀ x < phdrSize, b x = b' x) : readPhdr b = readPhdr b' := by
  have hword : ∀ a ≤ 28, getBE b a 4 = getBE b' a 4 := by
    intro a ha
    exact getBE_congr fun x _ hx => h x (by unfold phdrSize; omega)
  unfold readPhdr
  rw [hword 0 (by omega), hword 4 (by omega), hword 8 (by omega), hword 16 (by omega), hword 20 (by omega),
    hword 24 (by omega)]

theorem readEhdr_congr {b : Mem} (b' : Mem) (h : ∀ x < ehdrSize, b x = b' x) :
    (readEhdr b).ePhoff = (readEhdr b').ePhoff ∧ (readEhdr b).ePhentsize = (readEhdr b').ePhentsize ∧
      (readEhdr b).ePhnum = (readEhdr b').ePhnum := by
  refine ⟨?_, ?_, ?_⟩ <;> exact getBE_congr fun x _ hx => h x (by unfold ehdrSize; omega)

def bytesAt (data : List UInt8) (offset : Nat) : Mem := fun x => data.getD (offset + x) 0

def headersFrom (data : List UInt8) (eh : Ehdr) (i n : Nat) : List Phdr :=
  ((List.range' i n).map fun i => readPhdr (bytesAt data (phdrOffset eh i).toNat)).filter (·.pType == .load)

def loadHeaders (data : List UInt8) : List Phdr :=
  let eh := readEhdr (bytesAt data 0)
  headersFrom data eh 0 eh.ePhnum

theorem headersFrom_succ (data : List UInt8) (eh : Ehdr) (i n : Nat) :
    headersFrom data eh i (n + 1) =
      if (readPhdr (bytesAt data (phdrOffset eh i).toNat)).pType = .load then
        readPhdr (bytesAt data (phdrOffset eh i).toNat) :: headersFrom data eh (i + 1) n
      else headersFrom data eh (i + 1) n := by
  unfold headersFrom
  rw [List.range'_succ, List.map_cons, List.filter_cons]
  simp only [beq_iff_eq]

/-! ## The segments that are defined -/

structure Loads (as as' : AddrSpace) (l : List Phdr) : Prop where
  count : as'.numSegments = as.numSegments + l.length
  ok : RegionsOk as'
  new : ∀ k ph, l[k]? = some ph → ∃ block,
    as'.segments (as.numSegments + k) = regionSegment block ph.pVaddr ph.pMemsz ph.pFlags ph.pOffset ph.pFilesz
  old : ∀ j, j < as.numSegments ∨ as'.numSegments ≤ j → as'.segments j = as.segments j

theorem Loads.nil (h : RegionsOk as) : Loads as as [] := ⟨rfl, h, nofun, fun _ _ => rfl⟩

theorem Loads.cons {as₁ : AddrSpace} {ph : Phdr} {l : List Phdr} {block : Nat}
    (he : as₁ = { as.setSegment as.numSegments (regionSegment block ph.pVaddr ph.pMemsz ph.pFlags ph.pOffset
      ph.pFilesz) with
      numSegments := as.numSegments + 1 }) (h : Loads as₁ as' l) : Loads as as' (ph :: l) := by
  have hcount := h.count
  have hnum : as₁.numSegments = as.numSegments + 1 := by rw [he]
  rw [hnum] at hcount
  constructor
  case count => rw [hcount, List.length_cons]; omega
  case ok => exact h.ok
  case new =>
    intro k ph' hk
    cases k with
    | zero =>
      obtain rfl := Option.some.inj hk
      refine ⟨block, ?_⟩
      rw [h.old _ (Or.inl (by omega)), he]
      exact Function.update_self ..
    | succ k =>
      obtain ⟨block', hb⟩ := h.new k ph' hk
      refine ⟨block', ?_⟩
      rw [← hb, hnum, Nat.add_assoc, Nat.add_comm 1]
  case old =>
    intro j hj
    rw [h.old j (by omega), he]
    exact Function.update_of_ne (by omega) _ _

theorem loadElfLoop_loads (f : ExecFile) (eh : Ehdr) (n i : Nat) (pds : PdPtr → PageDetail) (blocks : List Nat)
    (h : RegionsOk as) :
    ∃ r as' pds', loadElfLoop f eh n i as pds blocks = .ok (r, as', pds') ∧
      ∃ l, Loads as as' l ∧ (r = none → l = headersFrom f.data eh i n) := by
  induction n generalizing i as pds blocks with
  | zero => exact ⟨none, as, pds, rfl, [], .nil h, fun _ => rfl⟩
  | succ n ih =>
    obtain ⟨r, hr, hb⟩ := readHeader_spec f (i + 1) (phdrOffset eh i) phdrSize (by decide) (by decide)
    unfold loadElfLoop
    rw [hr, ok_bind]
    cases r with
    | error e => exact ⟨some e, as, pds, rfl, [], .nil h, nofun⟩
    | ok b =>
      have hph : readPhdr b = readPhdr (bytesAt f.data (phdrOffset eh i).toNat) := readPhdr_congr (hb b rfl)
      dsimp only
      rw [headersFrom_succ, ← hph]
      generalize readPhdr b = ph
      cases hty : ph.pType with
      | null | phdr | mipsReginfo =>
        rw [if_neg nofun]
        exact ih (i + 1) pds blocks h
      | other => exact ⟨some .enoexec, as, pds, rfl, [], .nil h, nofun⟩
      | load =>
        rw [if_pos rfl]
        dsimp only
        obtain ⟨r, as₁, pds₁, hdef⟩ := asDefineRegion_total h pds (blocks.headD 0) ph.pVaddr ph.pMemsz ph.pFlags
          ph.pOffset ph.pFilesz
        rw [hdef, ok_bind]
        obtain ⟨-, rfl, he, -⟩ | ⟨-, rfl, rfl, -⟩ := asDefineRegion_cases h hdef
        · obtain ⟨r, as', pds', hloop, l, hl, hall⟩ := ih (i + 1) pds₁ blocks.tail (asDefineRegion_ok h hdef)
          exact ⟨r, as', pds', hloop, ph :: l, hl.cons he, fun hr => by rw [hall hr]⟩
        · exact ⟨_, _, _, rfl, [], .nil h, nofun⟩

theorem loadElf_loads (h : RegionsOk as) (pds : PdPtr → PageDetail) (file : Except Errno (Nat × ExecFile))
    (blocks : List Nat) : ∃ r as' pds', loadElf as pds file blocks = .ok (r, as', pds') ∧ ∃ l, Loads as as' l ∧
      ∀ entry v f, r = .ok entry → file = .ok (v, f) → l = loadHeaders f.data := by
  unfold loadElf
  cases file with
  | error e => exact ⟨.error e, as, pds, rfl, [], .nil h, nofun⟩
  | ok x =>
    obtain ⟨v, f⟩ := x
    dsimp only
    have h₀ : RegionsOk { as with file := some v } := ⟨h.count, h.defined, h.empty⟩
    have hfile : ∀ {as' l}, Loads { as with file := some v } as' l → Loads as as' l :=
      fun hl => ⟨hl.count, hl.ok, hl.new, hl.old⟩
    obtain ⟨r, hr, hb⟩ := readHeader_spec f 0 0 ehdrSize (by decide) (by decide)
    rw [hr, ok_bind]
    cases r with
    | error e => exact ⟨.error e, _, pds, rfl, [], hfile (.nil h₀), nofun⟩
    | ok b =>
      dsimp only
      by_cases hex : isExecutable (readEhdr b) = true
      · rw [if_pos hex]
        obtain ⟨r, as', pds', hloop, l, hl, hall⟩ := loadElfLoop_loads f (readEhdr b)
          (readEhdr b).ePhnum 0 pds blocks h₀
        rw [hloop, ok_bind]
        cases r with
        | some e => exact ⟨.error e, as', pds', rfl, l, hfile hl, nofun⟩
        | none =>
          refine ⟨.ok _, as', pds', rfl, l, hfile hl, fun _ _ f' _ he => ?_⟩
          obtain rfl : f = f' := congrArg Prod.snd (Except.ok.inj he)
          obtain ⟨hoff, hent, hnum⟩ := readEhdr_congr (bytesAt f.data 0) fun x hx => hb b rfl x hx
          rw [hall rfl, loadHeaders, ← hnum]
          simp only [headersFrom, phdrOffset, hoff, hent]
      · rw [if_neg hex]
        exact ⟨.error .enoexec, _, pds, rfl, [], hfile (.nil h₀), nofun⟩

/-! ## Where the pages are -/

def Segment.Covers (seg : Segment) (a : Nat) : Prop := seg.vbase ≤ a ∧ a < seg.vbase + seg.size * pageSize

def Phdr.pageEnd (ph : Phdr) : Nat := (ph.pVaddr + ph.pMemsz + (pageSize - 1)) / pageSize * pageSize

def Phdr.Needs (ph : Phdr) (a : Nat) : Prop := ph.pVaddr / pageSize * pageSize ≤ a ∧ a < ph.pageEnd

structure WellPlaced (as : AddrSpace) (loads : List Phdr) : Prop where
  below : ∀ i < asNumSeg, (as.segments i).active ≠ 0 → (as.segments i).vbase + (as.segments i).size * pageSize ≤ userTop
  covers : ∀ k ph, loads[k]? = some ph → (as.segments k).vbase ≤ ph.pVaddr ∧
    ph.pVaddr + ph.pMemsz ≤ (as.segments k).vbase + (as.segments k).size * pageSize
  apart : ∀ i < asNumSeg, ∀ j < asNumSeg, (as.segments i).active ≠ 0 → (as.segments j).active ≠ 0 →
    ∀ a, (as.segments i).Covers a → (as.segments j).Covers a → i = j

structure HeadersFit (loads : List Phdr) : Prop where
  below : ∀ ph ∈ loads, ph.pageEnd ≤ userTop
  stack : ∀ ph ∈ loads, ∀ a, ph.Needs a → a < userTop - dumbvmStackpages * pageSize
  apart : ∀ (k l : Nat) (ph ph' : Phdr), loads[k]? = some ph → loads[l]? = some ph' → ∀ a, ph.Needs a →
    ph'.Needs a → k = l

theorem region_end {block flags offset filesz vaddr memsz : Nat} (h : vaddr + memsz ≤ userTop) :
    (regionSegment block vaddr memsz flags offset filesz).vbase = vaddr / pageSize * pageSize ∧
      (regionSegment block vaddr memsz flags offset filesz).vbase +
        (regionSegment block vaddr memsz flags offset filesz).size * pageSize =
        (vaddr + memsz + (pageSize - 1)) / pageSize * pageSize := by
  have hut : userTop = 2147483648 := rfl
  have hand : vaddr &&& 0xfff = vaddr % 4096 := Nat.and_two_pow_sub_one_eq_mod vaddr 12
  have hbase : (regionSegment block vaddr memsz flags offset filesz).vbase = vaddr / pageSize * pageSize :=
    and_pageFrame (by omega)
  refine ⟨hbase, ?_⟩
  rw [hbase]
  show vaddr / pageSize * pageSize + regionPages vaddr memsz * pageSize = _
  unfold regionPages
  rw [hand, u32_of_lt (n := memsz + vaddr % 4096) (by omega), u32_of_lt (by unfold pageSize; omega),
    and_pageFrame (by unfold pageSize; omega)]
  unfold pageSize
  omega

structure Placed (as : AddrSpace) (loads : List Phdr) : Prop where
  few : loads.length ≤ asNumSeg - 1
  region : ∀ k ph, loads[k]? = some ph → ∃ block,
    as.segments k = regionSegment block ph.pVaddr ph.pMemsz ph.pFlags ph.pOffset ph.pFilesz
  none : ∀ k, loads.length ≤ k → k < asNumSeg - 1 → as.segments k = emptySegment
  stack : ∃ block, as.segments (asNumSeg - 1) = stackSegment block

theorem Loads.placed {last : Segment} {l : List Phdr} (h : Loads (asCreate last) as l) (stack : Nat) :
    Placed (asDefineStack as pds stack).2.1 l := by
  have hcount : as.numSegments = l.length := by rw [h.count]; exact Nat.zero_add _
  have hle := h.ok.count
  show Placed (as.setSegment (asNumSeg - 1) (stackSegment stack)) l
  have hne : ∀ k < asNumSeg - 1, (as.setSegment (asNumSeg - 1) (stackSegment stack)).segments k = as.segments k :=
    fun k hk => Function.update_of_ne (Nat.ne_of_lt hk) _ _
  refine ⟨hcount ▸ hle, fun k ph hk => ?_, fun k hk hlt => ?_, stack, Function.update_self (asNumSeg - 1) _ as.segments⟩
  · have hlt := (List.getElem?_eq_some_iff.mp hk).1
    obtain ⟨block, hb⟩ := h.new k ph hk
    refine ⟨block, ?_⟩
    rw [hne k (by omega), ← hb]
    exact congrArg _ (Nat.zero_add k).symm
  · rw [hne k hlt]
    exact h.ok.empty k (by omega) hlt

section
variable {loads : List Phdr} (h : Placed as loads)
include h

theorem Placed.cases {i : Nat} (hi : i < asNumSeg) (ha : (as.segments i).active ≠ 0) :
    (∃ ph, loads[i]? = some ph) ∨ i = asNumSeg - 1 := by
  by_cases hlt : i < loads.length
  · exact Or.inl ⟨loads[i], List.getElem?_eq_getElem hlt⟩
  · right
    by_contra hne
    rw [h.none i (by omega) (by omega)] at ha
    exact ha rfl

theorem Placed.active {k : Nat} {ph : Phdr} (hk : loads[k]? = some ph) :
    k < asNumSeg - 1 ∧ (as.segments k).active ≠ 0 := by
  obtain ⟨block, hb⟩ := h.region k ph hk
  have hlt := (List.getElem?_eq_some_iff.mp hk).1
  have hfew := h.few
  rw [hb]
  exact ⟨by omega, by show (1 : Int) ≠ 0; decide⟩

theorem Placed.span {k : Nat} {ph : Phdr} (hk : loads[k]? = some ph) (htop : ph.pVaddr + ph.pMemsz ≤ userTop) :
    (as.segments k).vbase = ph.pVaddr / pageSize * pageSize ∧
      (as.segments k).vbase + (as.segments k).size * pageSize = ph.pageEnd := by
  obtain ⟨block, hb⟩ := h.region k ph hk
  rw [hb]
  exact region_end htop

theorem Placed.covers_iff {k : Nat} {ph : Phdr} (hk : loads[k]? = some ph)
    (htop : ph.pVaddr + ph.pMemsz ≤ userTop) (a : Nat) : (as.segments k).Covers a ↔ ph.Needs a := by
  obtain ⟨hbase, hend⟩ := h.span hk htop
  unfold Segment.Covers Phdr.Needs
  rw [hend, hbase]

theorem Placed.stack_covers (a : Nat) :
    (as.segments (asNumSeg - 1)).Covers a ↔ userTop - dumbvmStackpages * pageSize ≤ a ∧ a < userTop := by
  obtain ⟨block, hb⟩ := h.stack
  have hend : userTop - dumbvmStackpages * pageSize + dumbvmStackpages * pageSize = userTop := by decide
  rw [hb, Segment.Covers, stackSegment]
  dsimp only
  rw [hend]

theorem Placed.headersFit (hw : WellPlaced as loads) : HeadersFit loads := by
  have htop : ∀ (k : Nat) (ph : Phdr), loads[k]? = some ph → ph.pVaddr + ph.pMemsz ≤ userTop := by
    intro k ph hk
    obtain ⟨hlt, hact⟩ := h.active hk
    exact Nat.le_trans (hw.covers k ph hk).2 (hw.below k (by omega) hact)
  have hend : ∀ (k : Nat) (ph : Phdr), loads[k]? = some ph → ph.pageEnd ≤ userTop := by
    intro k ph hk
    obtain ⟨hlt, hact⟩ := h.active hk
    rw [← (h.span hk (htop k ph hk)).2]
    exact hw.below k (by omega) hact
  constructor
  case below =>
    intro ph hph
    obtain ⟨k, hk⟩ := List.getElem?_of_mem hph
    exact hend k ph hk
  case stack =>
    intro ph hph a ha
    obtain ⟨k, hk⟩ := List.getElem?_of_mem hph
    obtain ⟨hlt, hact⟩ := h.active hk
    by_contra hge
    have hstack := (h.stack_covers a).mpr ⟨Nat.le_of_not_lt hge, Nat.lt_of_lt_of_le ha.2 (hend k ph hk)⟩
    obtain ⟨block, hb⟩ := h.stack
    have heq := hw.apart k (by omega) (asNumSeg - 1) (by decide) hact (by rw [hb]; show (1 : Int) ≠ 0; decide) a
      ((h.covers_iff hk (htop k ph hk) a).mpr ha) hstack
    omega
  case apart =>
    intro k l ph ph' hk hl a ha ha'
    obtain ⟨hlt, hact⟩ := h.active hk
    obtain ⟨hlt', hact'⟩ := h.active hl
    exact hw.apart k (by omega) l (by omega) hact hact' a ((h.covers_iff hk (htop k ph hk) a).mpr ha)
      ((h.covers_iff hl (htop l ph' hl) a).mpr ha')

theorem Placed.wellPlaced (hf : HeadersFit loads) : WellPlaced as loads := by
  have hmem : ∀ {k ph}, loads[k]? = some ph → ph ∈ loads := fun hk => List.mem_of_getElem? hk
  have htop : ∀ (k : Nat) (ph : Phdr), loads[k]? = some ph → ph.pVaddr + ph.pMemsz ≤ userTop := by
    intro k ph hk
    have hle := hf.below ph (hmem hk)
    unfold Phdr.pageEnd pageSize at hle
    omega
  constructor
  case below =>
    intro i hi ha
    rcases h.cases hi ha with ⟨ph, hk⟩ | rfl
    · rw [(h.span hk (htop i ph hk)).2]
      exact hf.below ph (hmem hk)
    · obtain ⟨block, hb⟩ := h.stack
      rw [hb]
      show userTop - dumbvmStackpages * pageSize + dumbvmStackpages * pageSize ≤ userTop
      decide
  case covers =>
    intro k ph hk
    obtain ⟨hbase, hend⟩ := h.span hk (htop k ph hk)
    rw [hend, hbase]
    unfold Phdr.pageEnd pageSize
    omega
  case apart =>
    -- a program segment and the stack
    have hstack : ∀ {i ph}, loads[i]? = some ph → ∀ a, (as.segments i).Covers a →
        ¬ (as.segments (asNumSeg - 1)).Covers a := by
      intro i ph hk a ha hs
      have hlt := hf.stack ph (hmem hk) a ((h.covers_iff hk (htop i ph hk) a).mp ha)
      have hge := ((h.stack_covers a).mp hs).1
      omega
    intro i hi j hj hai haj a hci hcj
    rcases h.cases hi hai with ⟨ph, hk⟩ | rfl
    · rcases h.cases hj haj with ⟨ph', hl⟩ | rfl
      · exact hf.apart i j ph ph' hk hl a ((h.covers_iff hk (htop i ph hk) a).mp hci)
          ((h.covers_iff hl (htop j ph' hl) a).mp hcj)
      · exact absurd hcj (hstack hk a hci)
    · rcases h.cases hj haj with ⟨ph', hl⟩ | rfl
      · exact absurd hci (hstack hl a hcj)
      · rfl

end

theorem WellPlaced.lookup {loads : List Phdr} (h : WellPlaced as loads) {a i j : Nat} (hi : asGetSegment as a = some i)
    (hj : j < asNumSeg) (ha : (as.segments j).active = 1) (hin : inSegment (as.segments j) a = true) : i = j := by
  obtain ⟨hlt, hact, hlo, hhi⟩ := asGetSegment_some hi
  have hle : ∀ n, u32 n ≤ n := fun n => Nat.mod_le n _
  simp only [inSegment, Bool.and_eq_true, decide_eq_true_eq] at hin
  refine h.apart i hlt j hj (by rw [hact]; decide) (by rw [ha]; decide) a ⟨hlo, ?_⟩ ⟨hin.1, ?_⟩
  · exact Nat.lt_of_lt_of_le hhi (hle _)
  · exact Nat.lt_of_lt_of_le hin.2 (hle _)

theorem loadElf_placed {last : Segment} {v entry : Nat}
    (h : loadElf (asCreate last) pds (.ok (v, f)) blocks = .ok (.ok entry, as, pds')) (stack : Nat) :
    Placed (asDefineStack as pds' stack).2.1 (loadHeaders f.data) := by
  obtain ⟨r, as', pds'', he, l, hl, hall⟩ := loadElf_loads (asCreate_ok last) pds (.ok (v, f)) blocks
  rw [h] at he
  simp only [Except.ok.injEq, Prod.mk.injEq] at he
  obtain ⟨rfl, rfl, rfl⟩ := he
  obtain rfl := hall entry v f rfl rfl
  exact hl.placed stack

/-- When `load_elf` and `as_define_stack` have succeeded, the segments are
well placed exactly if the pages the file's headers need are user pages below
the stack and no page is needed twice. -/
theorem segments_well_placed_iff (last : Segment) (pds : PdPtr → PageDetail) (v : Nat) (f : ExecFile)
    (blocks : List Nat) (stack entry : Nat) (as : AddrSpace) (pds' : PdPtr → PageDetail)
    (h : loadElf (asCreate last) pds (.ok (v, f)) blocks = .ok (.ok entry, as, pds')) :
    (WellPlaced (asDefineStack as pds' stack).2.1 (loadHeaders f.data) ↔ HeadersFit (loadHeaders f.data)) ∧
      (WellPlaced (asDefineStack as pds' stack).2.1 (loadHeaders f.data) → ∀ a i j,
        asGetSegment (asDefineStack as pds' stack).2.1 a = some i → j < asNumSeg →
        ((asDefineStack as pds' stack).2.1.segments j).active = 1 →
        inSegment ((asDefineStack as pds' stack).2.1.segments j) a = true → i = j) := by
  have hp := loadElf_placed h stack
  exact ⟨⟨hp.headersFit, hp.wellPlaced⟩, fun hw a i j hi hj ha hin => hw.lookup hi hj ha hin⟩

def wordBE (n : Nat) : List UInt8 := (List.range 4).map (putBE (fun _ => 0) 0 4 n)

def smallElf (l : List (Nat × Nat)) : ExecFile where
  data := [0x7f, 0x45, 0x4c, 0x46, 1, 2, 1, 0, 0, 0, 0, 0, 0, 0, 0, 0, 0, 2, 0, 8] ++ wordBE 1 ++
    wordBE 0x400000 ++ wordBE 52 ++ wordBE 0 ++ wordBE 0 ++ [0, 52, 0, 32, 0, UInt8.ofNat l.length, 0, 0, 0, 0, 0, 0] ++
    l.flatMap fun x => wordBE 1 ++ wordBE 0 ++ wordBE x.1 ++ wordBE x.1 ++ wordBE 0 ++ wordBE x.2 ++
    wordBE 7 ++ wordBE 0
  fails _ := none

def loadedSpace (f : ExecFile) : Option AddrSpace :=
  match loadElf (asCreate emptySegment) (fun _ => ptEntry emptySegment 0) (.ok (0, f)) [1, 2] with
  | .ok (.ok _, as, pds) => some (asDefineStack as pds 3).2.1
  | _ => none

theorem loadedSpace_eq_some (h : loadedSpace f = some as) : ∃ entry as₀ pds,
    loadElf (asCreate emptySegment) (fun _ => ptEntry emptySegment 0) (.ok (0, f)) [1, 2] = .ok (.ok entry, as₀, pds) ∧
      as = (asDefineStack as₀ pds 3).2.1 := by
  unfold loadedSpace at h
  split at h
  · rename_i entry as₀ pds he
    exact ⟨entry, as₀, pds, he, (Option.some.inj h).symm⟩
  · cases h

theorem segments_well_placed_small : ∃ as, loadedSpace (smallElf [(0x400000, 0x1000)]) = some as ∧
    WellPlaced as (loadHeaders (smallElf [(0x400000, 0x1000)]).data) := by
  have hheaders : loadHeaders (smallElf [(0x400000, 0x1000)]).data = [⟨.load, 0, 0x400000, 0, 0x1000, 7⟩] := by
    decide +kernel
  have hfit : HeadersFit (loadHeaders (smallElf [(0x400000, 0x1000)]).data) := by
    rw [hheaders]
    refine ⟨by decide, fun ph hph a ha => ?_, fun k l ph ph' hk hl _ _ _ => ?_⟩
    · obtain rfl := List.mem_singleton.mp hph
      have hlt : a < 0x401000 := ha.2
      have hstack : userTop - dumbvmStackpages * pageSize = 0x7fff4000 := by decide
      omega
    · have hk := (List.getElem?_eq_some_iff.mp hk).1
      have hl := (List.getElem?_eq_some_iff.mp hl).1
      simp only [List.length_singleton] at hk hl
      omega
  have hsome : (loadedSpace (smallElf [(0x400000, 0x1000)])).isSome = true := by decide +kernel
  obtain ⟨as, has⟩ := Option.isSome_iff_exists.mp hsome
  obtain ⟨entry, as₀, pds, he, rfl⟩ := loadedSpace_eq_some has
  exact ⟨_, has, (segments_well_placed_iff _ _ _ _ _ 3 _ _ _ he).1.mpr hfit⟩

def BadlyPlaced (l : List (Nat × Nat)) : Prop :=
  ∃ as, loadedSpace (smallElf l) = some as ∧ ¬ WellPlaced as (loadHeaders (smallElf l).data)

theorem segments_badly_placed :
    BadlyPlaced [(0x80000000, 0x1000)] ∧ BadlyPlaced [(0x400000, 0x2000), (0x401000, 0x1000)] ∧
      BadlyPlaced [(0x7ffff000, 0x1000)] ∧ BadlyPlaced [(0x400000, 0xffffffff)] := by
  have haccept : ∀ l, (loadedSpace (smallElf l)).isSome = true → ¬ HeadersFit (loadHeaders (smallElf l).data) →
      BadlyPlaced l := by
    intro l hsome hfit
    obtain ⟨as, has⟩ := Option.isSome_iff_exists.mp hsome
    obtain ⟨entry, as₀, pds, he, rfl⟩ := loadedSpace_eq_some has
    exact ⟨_, has, fun hw => hfit ((loadElf_placed he 3).headersFit hw)⟩
  refine ⟨haccept _ (by decide +kernel) fun hf => ?_, haccept _ (by decide +kernel) fun hf => ?_,
    haccept _ (by decide +kernel) fun hf => ?_, haccept _ (by decide +kernel) fun hf => ?_⟩
  · have hbelow := hf.below ⟨.load, 0, 0x80000000, 0, 0x1000, 7⟩ (by decide +kernel)
    exact absurd hbelow (by decide)
  · have hapart := hf.apart 0 1 ⟨.load, 0, 0x400000, 0, 0x2000, 7⟩ ⟨.load, 0, 0x401000, 0, 0x1000, 7⟩
      (by decide +kernel) (by decide +kernel) 0x401000 ⟨by decide, by decide⟩ ⟨by decide, by decide⟩
    cases hapart
  · have hstack := hf.stack ⟨.load, 0, 0x7ffff000, 0, 0x1000, 7⟩ (by decide +kernel) 0x7ffff000 ⟨by decide, by decide⟩
    exact absurd hstack (by decide)
  · have hbelow := hf.below ⟨.load, 0, 0x400000, 0, 0xffffffff, 7⟩ (by decide +kernel)
    exact absurd hbelow (by decide)

end Os161
