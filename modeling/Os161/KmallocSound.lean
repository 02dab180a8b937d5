import Os161.KframesSound
import Os161.KheapSound

/-!
# What is behind a pointer from `kmalloc`

`kmalloc` over the core map. The memory of a block is new to the kernel if
whole pages are asked for and their number does not wrap, or if a page has to
be got for the block.
-/

namespace Os161

open Outcome

def vmKpages (npages : Nat) (s : Vm) : Except HeapFault (Nat × Vm) :=
  match allocKpages s npages with
  | .ok r => .ok r
  | .error c => .error (.pages c.why)

def kmallocPageCount (sz : Nat) : Nat := u32 (sz + pageSize - 1) / pageSize

/-- The `sz` bytes at `ptr` are in frames that the call has given to the
kernel, whose own frames are as they were; the page count is large enough. -/
structure Backed (s s' : Vm) (ptr sz : Nat) : Prop where
  bytes : ∀ x < sz, (s'.cm.coreDetails (kframe (ptr + x))).kern ≠ 0 ∧ (s.cm.coreDetails (kframe (ptr + x))).kern = 0
  kept : ∀ f, (s.cm.coreDetails f).kern ≠ 0 → (s'.cm.coreDetails f).kern = (s.cm.coreDetails f).kern
  count : largestSubpageSize ≤ sz → 1 ≤ kmallocPageCount sz ∧ sz / pageSize ≤ kmallocPageCount sz

/-- Nothing is asked for, or whole pages whose number does not wrap, or no
page of the block's type has a free block. -/
def FreshPages (h : Kheap) (sz : Nat) : Prop :=
  sz = 0 ∨ (largestSubpageSize ≤ sz ∧ sz ≤ 2 ^ 32 - pageSize) ∨
    (sz < largestSubpageSize ∧ ∀ b, blocktype sz = .ok b → findPage h b npagerefs (h.sizebases b) = .ok none)

variable {s s' : Vm} {c c' : Cm} {h h' : Kheap} {l : List Nat} {f n sz ptr i : Nat}

/-! ## Requests in any state of the core map -/

theorem unlinkFrame_kern (he : unlinkFrame c i = .ok c') (g : Nat) :
    (c'.coreDetails g).kern = (c.coreDetails g).kern := by
  unfold unlinkFrame at he
  grind [Cm.modify_coreDetails]

theorem claimKframes_kern (he : claimKframes l s = .ok s') (g : Nat) :
    (s'.cm.coreDetails g).kern = (s.cm.coreDetails g).kern ∨ (g ∈ l ∧ (s'.cm.coreDetails g).kern = 1) := by
  induction l generalizing s with
  | nil =>
    cases he
    exact Or.inl rfl
  | cons i l ih =>
    obtain ⟨s₁, hone, he⟩ : ∃ s₁ : Vm, ((s₁.cm.coreDetails g).kern = (s.cm.coreDetails g).kern ∨
        (g = i ∧ (s₁.cm.coreDetails g).kern = 1)) ∧ claimKframes l s₁ = .ok s' := by
      unfold claimKframes at he
      dsimp only at he
      split at he
      · obtain ⟨c, hc, he⟩ := bind_eq_ok.mp he
        refine ⟨_, ?_, he⟩
        have hrem : freeFrameListRemove s.cm i = .ok c := by
          cases hr : freeFrameListRemove s.cm i with
          | ok c' => rw [hr] at hc; cases hc; rfl
          | error e => rw [hr] at hc; cases hc
        obtain ⟨c₁, hun, hc⟩ := bind_eq_ok.mp hrem
        cases hc
        have hk := unlinkFrame_kern hun g
        by_cases e : g = i
        · exact Or.inr ⟨e, by simp [e]⟩
        · exact Or.inl (by simp [Cm.modify_of_ne e, hk])
      · obtain ⟨s₁, hs₁, he⟩ := bind_eq_ok.mp he
        refine ⟨s₁, Or.inl ?_, he⟩
        cases hpd : (s.cm.coreDetails i).pd with
        | none => rw [cmFreeCore_none hpd] at hs₁; cases hs₁
        | some p =>
          obtain ⟨tlb, swap, sfn, rfl, hsh⟩ := (cmFreeCore_frame hpd).ok_of hs₁
          exact (evicted_evicts hsh).kern g
    rcases ih he with h2 | ⟨hm, h2⟩
    · rcases hone with h1 | ⟨rfl, h1⟩
      · exact Or.inl (h2.trans h1)
      · exact Or.inr ⟨List.mem_cons_self .., h2.trans h1⟩
    · exact Or.inr ⟨List.mem_cons_of_mem _ hm, h2⟩

theorem allocKpages_kern (he : allocKpages s n = .ok (ptr, s')) :
    ∃ f, ptr = paddrToKvaddr (f * pageSize) ∧ s.cm.lowestFrame ≤ f ∧ f + n ≤ s.cm.size ∧
      (∀ g ∈ List.range' f n, (s.cm.coreDetails g).kern = 0 ∧ (s'.cm.coreDetails g).kern ≠ 0) ∧
      (∀ g, g ∉ List.range' f n → g ≠ f → (s'.cm.coreDetails g).kern = (s.cm.coreDetails g).kern) ∧
      (n = 0 → (s'.cm.coreDetails f).kern = 0) := by
  unfold allocKpages cmRequestKframes at he
  split at he
  · cases he
  · cases hfind : findKframes s.cm n with
    | none => rw [hfind] at he; cases he
    | some f =>
      rw [hfind] at he
      obtain ⟨s₁, hcl, he⟩ := bind_eq_ok.mp he
      cases he
      obtain ⟨hlo, hsz, hzero⟩ := findKframes_some hfind
      have hkern := fun g => claimKframes_kern hcl g
      simp only [markKframes_coreDetails] at hkern
      refine ⟨f, rfl, hlo, hsz, fun g hg => ?_, fun g hg hgf => ?_, fun h0 => ?_⟩
      · have hm := List.mem_range'_1.mp hg
        refine ⟨hzero g hm.1 hm.2, ?_⟩
        rcases hkern g with e | ⟨-, e⟩
        · rw [e]
          split_ifs <;> omega
        · rw [e]; simp
      · rcases hkern g with e | ⟨hm, -⟩
        · rw [e, if_neg hgf, if_neg fun hm => hg (List.mem_range'_1.mpr hm)]
        · exact absurd hm hg
      · subst h0
        rcases hkern f with e | ⟨hm, -⟩
        · rw [e, if_pos rfl]
        · cases hm

theorem vmKpages_eq_ok (he : vmKpages n s = .ok (ptr, s')) : allocKpages s n = .ok (ptr, s') := by
  unfold vmKpages at he
  split at he
  · rename_i r hr
    rw [hr]
    cases he
    rfl
  · cases he

/-! ## Addresses -/

theorem kframe_mem {x : Nat} (hx : x < n * pageSize) :
    kframe (paddrToKvaddr (f * pageSize) + x) ∈ List.range' f n := by
  have hk : kframe (paddrToKvaddr (f * pageSize) + x) = f + x / pageSize := by
    unfold kframe paddrToKvaddr
    rw [show f * pageSize + mipsKseg0 + x - mipsKseg0 = x + f * pageSize by omega,
      Nat.add_mul_div_right _ _ (by decide), Nat.add_comm]
  have := (Nat.div_lt_iff_lt_mul (show 0 < pageSize by decide)).mpr hx
  rw [hk]
  exact List.mem_range'_1.mpr ⟨Nat.le_add_right .., by omega⟩

theorem kmallocPageCount_large (hsz : largestSubpageSize ≤ sz) (hle : sz ≤ 2 ^ 32 - pageSize) :
    1 ≤ kmallocPageCount sz ∧ sz ≤ kmallocPageCount sz * pageSize := by
  unfold kmallocPageCount u32
  unfold largestSubpageSize at hsz
  unfold pageSize at *
  omega

theorem kmallocPageCount_wraps (hsz : sz < 2 ^ 32) (hgt : 2 ^ 32 - pageSize < sz) : kmallocPageCount sz = 0 := by
  unfold kmallocPageCount u32
  unfold pageSize at *
  omega

/-! ## Large sizes -/

theorem kmalloc_large (hsz : largestSubpageSize ≤ sz) (hlt : sz < 2 ^ 32)
    (he : kmalloc vmKpages h s sz = .ok (ptr, h', s')) : Backed s s' ptr sz ↔ sz ≤ 2 ^ 32 - pageSize := by
  unfold kmalloc at he
  rw [if_pos hsz] at he
  obtain ⟨⟨a, s₁⟩, ha, he⟩ := bind_eq_ok.mp he
  cases he
  obtain ⟨f, rfl, -, -, hin, hout, hzero⟩ := allocKpages_kern (vmKpages_eq_ok ha)
  have hcount : u32 (sz + pageSize - 1) / pageSize = kmallocPageCount sz := rfl
  rw [hcount] at hin hout hzero
  constructor
  · intro hb
    by_contra hgt
    have h0 := kmallocPageCount_wraps hlt (by omega)
    have := (hb.count hsz).1
    omega
  · intro hle
    obtain ⟨h1, h2⟩ := kmallocPageCount_large hsz hle
    refine ⟨fun x hx => ?_, fun g hg => ?_, fun _ => ⟨h1, ?_⟩⟩
    · have := hin _ (kframe_mem (f := f) (show x < kmallocPageCount sz * pageSize by omega))
      exact ⟨this.2, this.1⟩
    · have hgl : g ∉ List.range' f (kmallocPageCount sz) := fun hm => hg (hin g hm).1
      refine hout g hgl ?_
      rintro rfl
      exact hgl (List.mem_range'_1.mpr ⟨Nat.le_refl _, by omega⟩)
    · exact Nat.div_le_of_le_mul (by rw [Nat.mul_comm]; exact h2)

/-! ## Small sizes -/

theorem doalloc_newPage {pr page b : Nat} {h₁ : Kheap} (hp : kernelPage page) (hb : b < nsizes)
    (hn : newPage h pr page b = .ok h₁) (he : doalloc h₁ pr = .ok (ptr, h')) :
    ptr = page + (pageSize / blockSize b - 1) * blockSize b := by
  unfold newPage at hn
  obtain ⟨h₂, -, hn⟩ := bind_eq_ok.mp hn
  dsimp only at hn
  rw [if_pos (Nat.add_sub_cancel_left ..), Nat.add_sub_cancel_left] at hn
  cases hn
  have hpage : (mkpab page b) &&& pageFrame = page := (mkpab_spec hp hb).1
  unfold doalloc at he
  simp only [Kheap.modify, Function.update_self, Pageref.pageaddr, hpage] at he
  split at he
  · split at he
    · split at he
      · cases he; rfl
      · cases he
    · split at he
      · cases he; rfl
      · cases he
  · cases he

theorem kmalloc_small_backed (hram : s.cm.size ≤ 2 ^ 17) (hsz : sz < largestSubpageSize)
    (he : kmalloc vmKpages h s sz = .ok (ptr, h', s')) (h0 : ptr ≠ 0) :
    Backed s s' ptr sz ↔ sz = 0 ∨ ∀ b, blocktype sz = .ok b → findPage h b npagerefs (h.sizebases b) = .ok none := by
  obtain ⟨b, hb, hbt, hle⟩ := blocktype_spec hsz
  have hno : ¬ largestSubpageSize ≤ sz := by omega
  rw [kmalloc_small _ hsz hbt] at he
  obtain ⟨r, hf, he⟩ := bind_eq_ok.mp he
  have hcond : (∀ b, blocktype sz = .ok b → findPage h b npagerefs (h.sizebases b) = .ok none) ↔ r = none := by
    rw [hbt]
    constructor
    · intro hall
      exact Except.ok.inj (hf.symm.trans (hall b rfl))
    · rintro rfl b' hb'
      cases hb'
      exact hf
  rw [hcond]
  cases r with
  | some pr =>
    obtain ⟨x, -, he⟩ := bind_eq_ok.mp he
    cases he
    refine ⟨fun hb => ?_, fun hz => ⟨fun x hx => ?_, fun _ _ => rfl, fun hge => absurd hge hno⟩⟩
    · by_contra hcon
      have := hb.bytes 0 (Nat.pos_of_ne_zero fun e => hcon (Or.inl e))
      exact this.1 this.2
    · rcases hz with rfl | hz
      · cases hx
      · cases hz
  | none =>
    obtain ⟨⟨q, h₁⟩, -, he⟩ := bind_eq_ok.mp he
    cases q with
    | none =>
      cases he
      exact absurd rfl h0
    | some pr =>
      obtain ⟨⟨page, s₁⟩, hpg, he⟩ := bind_eq_ok.mp he
      dsimp only at he
      by_cases hz : page = 0
      · rw [if_pos hz] at he
        obtain ⟨h₂, -, he⟩ := bind_eq_ok.mp he
        cases he
        exact absurd rfl h0
      · rw [if_neg hz] at he
        obtain ⟨h₂, hnew, he⟩ := bind_eq_ok.mp he
        obtain ⟨⟨p, h₃⟩, hdo, he⟩ := bind_eq_ok.mp he
        cases he
        obtain ⟨f, rfl, hlo, hlast, hin, hout, -⟩ := allocKpages_kern (vmKpages_eq_ok hpg)
        obtain ⟨hpos, -, hdiv, htwo⟩ := blockSize_facts hb
        have hkp : kernelPage (paddrToKvaddr (f * pageSize)) := by
          unfold kernelPage paddrToKvaddr mipsKseg0
          unfold pageSize
          omega
        have hptr := doalloc_newPage hkp hb hnew hdo
        have hlast : (pageSize / blockSize b - 1) * blockSize b + blockSize b = pageSize := by
          rw [Nat.sub_mul, Nat.one_mul, Nat.sub_add_cancel (Nat.le_mul_of_pos_left _ (by omega)), Nat.mul_comm, hdiv]
        refine ⟨fun _ => Or.inr rfl, fun _ => ⟨fun x hx => ?_, fun g hg => ?_, fun hge => absurd hge hno⟩⟩
        · rw [hptr, Nat.add_assoc]
          have := hin _ (kframe_mem (f := f) (n := 1)
            (show (pageSize / blockSize b - 1) * blockSize b + x < 1 * pageSize by omega))
          exact ⟨this.2, this.1⟩
        · have hgl : g ∉ List.range' f 1 := fun hm => hg (hin g hm).1
          refine hout g hgl ?_
          rintro rfl
          exact hgl (by simp)

/-- A pointer that `kmalloc` returns is backed by frames that are new to the
kernel exactly if the size meets the condition. KSEG0 maps 2^17 frames. -/
theorem kmalloc_backed_iff (hram : s.cm.size ≤ 2 ^ 17) (hsz : sz < 2 ^ 32)
    (he : kmalloc vmKpages h s sz = .ok (ptr, h', s')) (h0 : ptr ≠ 0) : Backed s s' ptr sz ↔ FreshPages h sz := by
  unfold FreshPages
  by_cases hl : largestSubpageSize ≤ sz
  · rw [kmalloc_large hl hsz he]
    have hpos : sz ≠ 0 := by
      unfold largestSubpageSize at hl
      omega
    have hno : ¬ sz < largestSubpageSize := by omega
    simp [hl, hpos, hno]
  · have hlt : sz < largestSubpageSize := by omega
    rw [kmalloc_small_backed hram hlt he h0]
    simp [hl, hlt]

def emptyHeap : Kheap := heapStart (fun _ => ⟨none, none, 0, 0, 0⟩) fun _ => 0

theorem kmalloc_backed_iff_page : ∃ ptr h' s', kmalloc vmKpages emptyHeap (boot tiny).vm 4097 = .ok (ptr, h', s') ∧
    ptr ≠ 0 ∧ Backed (boot tiny).vm s' ptr 4097 := by
  obtain ⟨ptr, h', s', he, h0⟩ : ∃ ptr h' s',
      kmalloc vmKpages emptyHeap (boot tiny).vm 4097 = .ok (ptr, h', s') ∧ ptr ≠ 0 := ⟨_, _, _, rfl, by decide⟩
  refine ⟨ptr, h', s', he, h0, (kmalloc_backed_iff (by decide) (by decide) he h0).mpr ?_⟩
  exact Or.inr (Or.inl ⟨by decide, by decide⟩)

theorem kmalloc_wraps : ∃ a s h' s', allocKpages (boot tiny).vm 1 = .ok (a, s) ∧ (s.cm.coreDetails 1).kern = 1 ∧
    kmalloc vmKpages emptyHeap s 0xffffffff = .ok (a, h', s') ∧ a ≠ 0 ∧ (s'.cm.coreDetails 1).kern = 0 :=
  ⟨_, _, _, _, rfl, by decide, rfl, by decide, by decide⟩

end Os161
