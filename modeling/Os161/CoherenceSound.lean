import Os161.OwnershipSound

/-!
# The TLB and the running space

`as_activate` flushes the TLB unless the space is at the address of the last
one that was activated. In runs in which that is never a space that has taken
the place of a destroyed one, the TLB only translates to pages of the running
space where they are.
-/

namespace Os161

open Linked Outcome

variable {m : Boot} {s : Sys} {as : AddrSpace}

/-- Each valid entry is a page of an active segment of the running space, at
its frame, and writable only if the segment is. -/
theorem tlb_coherent (h : Reach step (fun s op => op.Allowed s ∧ op.Flushes s) (boot m) s) (hc : s.cur = some as) :
    ∀ k < numTlb, (s.vm.tlb.entries k).valid = true → ∃ i p,
      asGetSegment as (s.vm.tlb.entries k).vpage = some i ∧ as.Has i p ∧
      (ptEntry (as.segments i) p.idx).vaddr = (s.vm.tlb.entries k).vpage ∧
      (s.vm.pds p).vaddr = (s.vm.tlb.entries k).vpage ∧
      (s.vm.pds p).valid = true ∧ (s.vm.pds p).pfn * pageSize = (s.vm.tlb.entries k).ppage ∧
      ((s.vm.tlb.entries k).dirty = true → (as.segments i).writeable ≠ 0) := by
  intro k hk hv
  obtain ⟨G, own, hok, -⟩ := reach_ok true (fun _ _ hop => ⟨hop.1, fun _ => hop.2⟩) h
  obtain ⟨a, -, ha⟩ := Sys.cur_some hc
  obtain ⟨fl, hg⟩ := hok.idle.good
  obtain ⟨sl, hcore⟩ := hg.core
  obtain ⟨-, p, w, f, hp, hf, hu, hpp, hw⟩ := (hg.tlb _ (hok.view_cur hc)).entry k hk hv
  obtain ⟨i, hi, hhas, hva, rfl⟩ := view_has (hok.spaces.ok a as ha) hp
  obtain ⟨-, -, hpf, hval⟩ := hcore.pg.user f p hf hu
  refine ⟨i, p, hi, hhas, hva, (hok.view_vaddr ha hp).2, hval, ?_, fun hd => by simpa using hw hd⟩
  rw [hpf, hpp]
  exact (Int.natCast_mul ..).symm

theorem twoPages_flushes : Reach step (fun s op => op.Allowed s ∧ op.Flushes s) (boot tiny) twoPages :=
  twoPages_reach.1.weaken fun _ _ h => ⟨h.1, of_decide_eq_true h.2⟩

theorem tlb_coherent_twoPages : ∃ as, twoPages.cur = some as ∧ (twoPages.vm.tlb.entries 1).valid = true ∧
    ∃ i p, as.Has i p ∧ (twoPages.vm.pds p).valid = true ∧
      (twoPages.vm.pds p).pfn * pageSize = (twoPages.vm.tlb.entries 1).ppage := by
  obtain ⟨as, hc⟩ := Option.isSome_iff_exists.mp (show twoPages.cur.isSome = true by decide +kernel)
  have hv : (twoPages.vm.tlb.entries 1).valid = true := by decide +kernel
  obtain ⟨i, p, -, hp, -, -, hval, hpf, -⟩ := tlb_coherent twoPages_flushes hc 1 (by decide) hv
  exact ⟨as, hc, hv, i, p, hp, hval, hpf⟩

def sameAddress : Sys :=
  after (after (after twoPages (.destroy 0)) (.create 0 emptySegment 0 [] [] 1)) (.activate 0)

theorem new_space_inherits_tlb : Runs tiny sameAddress ∧
    (sameAddress.cur.bind fun as => as.view 0x7fff4000) = some ({ block := 1, idx := 0 }, true) ∧
    (sameAddress.vm.tlb.entries 0).valid = true ∧ (sameAddress.vm.tlb.entries 0).vpage = 0x7fff4000 ∧
    (sameAddress.vm.tlb.entries 0).ppage = 3 * pageSize ∧ (sameAddress.vm.tlb.entries 0).dirty = true ∧
    (sameAddress.vm.pds { block := 1, idx := 0 }).valid = false := by
  have h := goesThrough_reach (P := fun _ _ => true) (s := twoPages) (a := 0)
    (l := [.destroy 0, .create 0 emptySegment 0 [] [] 1, .activate 0]) twoPages_reach.2 (by decide +kernel)
  simp only [List.foldl_cons, List.foldl_nil] at h
  exact ⟨twoPages_runs.trans (h.1.weaken fun _ _ h => h.1), by decide +kernel⟩

end Os161
