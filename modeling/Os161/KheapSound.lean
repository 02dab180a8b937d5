import Mathlib.Tactic.IntervalCases
import Os161.Kheap
import Os161.Lib.Outcome

/-!
# Block types of the kernel heap
-/

namespace Os161

open Outcome

variable {h : Kheap} {b : Nat}

theorem blockSize_facts {b : Nat} (h : b < nsizes) :
    0 < blockSize b ∧ blockSize b % 16 = 0 ∧ blockSize b * (pageSize / blockSize b) = pageSize ∧
      2 ≤ pageSize / blockSize b := by
  unfold nsizes at h
  interval_cases b <;> decide

theorem mkpab_spec {page blk : Nat} (hp : kernelPage page) (hb : blk < nsizes) :
    mkpab page blk &&& pageFrame = page ∧ mkpab page blk &&& 0xfff = blk := by
  obtain ⟨hal, -, hlt⟩ := hp
  unfold nsizes at hb
  have hpage : page &&& pageFrame = page := by
    rw [and_pageFrame (by omega)]
    exact Nat.div_mul_cancel (Nat.dvd_of_mod_eq_zero hal)
  have hblk : blk &&& 0xfff = blk := by
    rw [show (0xfff : Nat) = 2 ^ 12 - 1 by decide, Nat.and_two_pow_sub_one_eq_mod, Nat.mod_eq_of_lt (by omega)]
  have hsum : mkpab page blk = page + blk := by
    obtain ⟨q, rfl⟩ := Nat.dvd_of_mod_eq_zero hal
    rw [mkpab, hpage, hblk, show pageSize * q = 2 ^ 12 * q by rfl]
    exact (Nat.two_pow_add_eq_or_of_lt (by omega) q).symm
  rw [hsum]
  constructor
  · rw [and_pageFrame (by omega)]
    unfold pageSize at hal ⊢
    omega
  · rw [show (0xfff : Nat) = 2 ^ 12 - 1 by decide, Nat.and_two_pow_sub_one_eq_mod]
    unfold pageSize at hal
    omega

theorem blocktype_spec {sz : Nat} (hsz : sz < largestSubpageSize) :
    ∃ b < nsizes, blocktype sz = .ok b ∧ sz ≤ blockSize b := by
  unfold blocktype
  cases hf : (List.range nsizes).find? fun i => sz ≤ blockSize i with
  | none =>
    rw [List.find?_eq_none] at hf
    have := hf 7 (by decide)
    rw [decide_eq_true_eq, show blockSize 7 = largestSubpageSize by decide] at this
    omega
  | some b => exact ⟨b, List.mem_range.mp (List.mem_of_find?_eq_some hf), rfl, by simpa using List.find?_some hf⟩

theorem kmalloc_small {σ : Type} (allocKpages : Nat → σ → Except HeapFault (Nat × σ)) {s : σ} {sz : Nat}
    (hsz : sz < largestSubpageSize) (hbt : blocktype sz = .ok b) :
    kmalloc allocKpages h s sz = findPage h b npagerefs (h.sizebases b) >>= fun r => match r with
      | some pr => doalloc h pr >>= fun x => .ok (x.1, x.2, s)
      | none => allocpageref h >>= fun x => match x with
        | (none, h) => .ok (0, h, s)
        | (some pr, h) => allocKpages 1 s >>= fun x =>
          if x.1 = 0 then freepageref h pr >>= fun h => .ok (0, h, x.2)
          else newPage h pr x.1 b >>= fun h => doalloc h pr >>= fun y => .ok (y.1, y.2, x.2) := by
  unfold kmalloc subpageKmalloc
  rw [if_neg (by omega), hbt]
  rfl

end Os161
