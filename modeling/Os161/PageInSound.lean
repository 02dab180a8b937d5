import Os161.AddrspaceSound
import Os161.KernelSound

/-!
# Page-in

`pagedIn` is the state after a frame from `cm_getppage` was filled, mapped
and given to a page, from its slot or from its file.
-/

namespace Os161

open Linked Outcome

variable {G : Ghost} {live : PdPtr → Prop} {own : Nat → Owner} {fl sl : List Nat} {s s' : Vm} {f n : Nat} {p : PdPtr}

/-! ## The state after a page-in -/

def pagedIn (s : Vm) (f : Nat) (p : PdPtr) (data : Page) (swap : Swap) (tlb : Tlb) : Vm :=
  { cm := s.cm.modify f fun d => { d with pd := some p, free := false, kern := 0 }
    pds := Function.update s.pds p { s.pds p with pfn := f, valid := true, sfn := -1 }
    mem := Function.update s.mem f data
    swap := swap
    tlb := tlb }

section
variable {data : Page} {swap : Swap} {tlb : Tlb}

theorem pagedIn_pds (q : PdPtr) : (pagedIn s f p data swap tlb).pds q =
    if q = p then { s.pds p with pfn := f, valid := true, sfn := -1 } else s.pds q := by
  simp only [pagedIn, Function.update_apply]

theorem pagedIn_kern (g : Nat) : ((pagedIn s f p data swap tlb).cm.coreDetails g).kern =
    if g = f then 0 else (s.cm.coreDetails g).kern := by
  simp only [pagedIn, Cm.modify_coreDetails]
  split <;> simp_all

theorem pagedIn_cm (h : CmOk own fl s.cm) (hr : s.cm.InRange f) (hb : own f = .busy) :
    CmOk (Function.update own f (.user p)) fl (pagedIn s f p data swap tlb).cm := by
  have hf : own f ≠ .free := by rw [hb]; simp
  have hne : ∀ x ∈ fl, x ≠ f := fun x hx e => h.not_mem hf (e ▸ hx)
  refine ⟨h.init, h.room, h.ram, h.clock, fun g hg => ?_, ?_, fun g => ?_, fun g hg => ?_⟩
  · simp only [pagedIn, Cm.modify_coreDetails]
    split
    · subst_vars; exact h.id_eq _ hr
    · exact h.id_eq g hg
  · exact h.links.congr (fun x hx => by simp [pagedIn, Cm.modify_of_ne (hne x hx)])
      fun x hx => by simp [pagedIn, Cm.modify_of_ne (hne x hx)]
  · rw [update_ne_free_iff (by simp), h.mem_fl]
    exact ⟨fun hg => ⟨hg.1, fun e => hf (e ▸ hg.2), hg.2⟩, fun hg => ⟨hg.1, hg.2.2⟩⟩
  · have hg' : s.cm.InRange g := hg
    rw [update_ne_free_iff (by simp)]
    simp only [pagedIn, Cm.modify_coreDetails]
    split
    · simp_all
    · simp_all [h.flag g hg']

theorem pagedIn_pg (h : PgOk live own s) (hr : s.cm.InRange f) (hb : own f = .busy) (hl : live p)
    (hno : ∀ g, s.cm.InRange g → own g ≠ .user p) :
    PgOk live (Function.update own f (.user p)) (pagedIn s f p data swap tlb) := by
  refine ⟨fun g q hg hq => ?_, fun q hq hall => ?_, fun q hq => ?_⟩
  · rcases eq_or_ne g f with rfl | hgf
    · obtain rfl : p = q := by simpa using hq
      exact ⟨hl, by simp [pagedIn], by simp [pagedIn_pds], by simp [pagedIn_pds]⟩
    · rw [Function.update_of_ne hgf] at hq
      have hqp : q ≠ p := by rintro rfl; exact hno g hg hq
      rw [pagedIn_pds, if_neg hqp]
      simpa [pagedIn, Cm.modify_of_ne hgf] using h.user g q hg hq
  · have hqp : q ≠ p := by
      rintro rfl
      exact hall f hr (by simp)
    rw [pagedIn_pds, if_neg hqp]
    refine h.away q hq fun g hg e => hall g hg ?_
    have hgf : g ≠ f := by rintro rfl; rw [hb] at e; cases e
    rw [Function.update_of_ne hgf]; exact e
  · rw [pagedIn_pds]
    split
    · subst_vars; exact h.aligned _ hl
    · exact h.aligned q hq

theorem SwOk.push {live' : PdPtr → Prop} {n : Nat} (h : SwOk live sl s) (hp : live p) (hn : (s.pds p).sfn = n)
    (hi : s'.swap.index = s.swap.index) (hnx : s'.swap.next = Function.update s.swap.next n s.swap.freePages)
    (hf : s'.swap.freePages = some n)
    (hto : ∀ q, live' q → (s'.pds q).sfn = -1 ∨
      (q ≠ p ∧ live q ∧ (s'.pds q).sfn = (s.pds q).sfn ∧ (s'.pds q).pfn = (s.pds q).pfn))
    (hback : ∀ q, live q → q ≠ p → (s.pds q).sfn = -1 ∨ (live' q ∧ (s'.pds q).sfn = (s.pds q).sfn)) :
    SwOk live' (n :: sl) s' := by
  obtain ⟨hlt, hns⟩ : n < swapPages ∧ n ∉ sl := by
    rcases h.sfn p hp with hs | ⟨k, hk, hs, hns, -⟩
    · rw [hs] at hn; omega
    · obtain rfl : k = n := by omega
      exact ⟨hk, hns⟩
  have hold : ∀ q (k : Nat), live' q → (s'.pds q).sfn = k → q ≠ p ∧ live q ∧ (s.pds q).sfn = k := by
    intro q k hq e
    rcases hto q hq with hs | ⟨hqp, hl, hs, -⟩
    · rw [hs] at e; omega
    · exact ⟨hqp, hl, hs ▸ e⟩
  refine ⟨?_, List.nodup_cons.mpr ⟨hns, h.nodup⟩, fun k hk => ?_, by rw [hi]; exact h.index, fun q hq => ?_,
    fun q r k hq hr eq er => ?_, fun k hk => ?_⟩
  · rw [hf, hnx, chain_cons, Function.update_self]
    exact ⟨rfl, h.chain.congr fun x hx => Function.update_of_ne (by rintro rfl; exact hns hx) ..⟩
  · rcases List.mem_cons.mp hk with rfl | hk
    · exact hlt
    · exact h.lt k hk
  · rcases hto q hq with hs | ⟨hqp, hl, hs, hpf⟩
    · exact Or.inl hs
    · rw [hs, hpf]
      refine (h.sfn q hl).imp_right fun ⟨k, hk, e, hks, hm⟩ => ⟨k, hk, e, fun hmem => ?_, hm⟩
      rcases List.mem_cons.mp hmem with rfl | hmem
      · exact hqp (h.inj q p k hl hp e hn)
      · exact hks hmem
  · obtain ⟨-, hq, eq⟩ := hold q k hq eq
    obtain ⟨-, hr, er⟩ := hold r k hr er
    exact h.inj q r k hq hr eq er
  · rcases h.cover k hk with hm | ⟨q, hq, e⟩
    · exact Or.inl (List.mem_cons_of_mem _ hm)
    · rcases eq_or_ne q p with rfl | hqp
      · obtain rfl : k = n := by omega
        exact Or.inl (List.mem_cons_self ..)
      · rcases hback q hq hqp with hs | ⟨hl, hs⟩
        · rw [hs] at e; omega
        · exact Or.inr ⟨q, hl, hs.trans e⟩

theorem pagedIn_sw_file (h : SwOk live sl s) (hs : (s.pds p).sfn = -1) :
    SwOk live sl (pagedIn s f p data s.swap tlb) := by
  refine h.congr rfl rfl rfl (fun q hq => ?_) fun q hq => ?_ <;> rw [pagedIn_pds] <;> split
  · exact Or.inl rfl
  · exact Or.inr ⟨hq, rfl, rfl⟩
  · subst_vars; exact Or.inl hs
  · exact Or.inr ⟨hq, rfl⟩

def pushed (w : Swap) (n : Nat) : Swap :=
  { w with next := Function.update w.next n w.freePages, freePages := some n }

theorem pagedIn_sw_swap {n : Nat} (h : SwOk live sl s) (hl : live p) (hs : (s.pds p).sfn = n) :
    SwOk live (n :: sl) (pagedIn s f p data (pushed s.swap n) tlb) := by
  refine h.push hl hs rfl rfl rfl (fun q hq => ?_) fun q hq hqp => ?_ <;> rw [pagedIn_pds]
  · split
    · exact Or.inl rfl
    · exact Or.inr ⟨‹_›, hq, rfl, rfl⟩
  · rw [if_neg hqp]
    exact Or.inr ⟨hq, rfl⟩

theorem pagedIn_data (h : DataOk G own s) (hr : s.cm.InRange f) (hb : own f = .busy) (hw : swap.data = s.swap.data)
    (hdata : ∀ x, G.abs p = some x → SamePage data x) : DataOk G (Function.update own f (.user p))
      (pagedIn s f p data swap tlb) := by
  have hold : ∀ g q, g ≠ f → Function.update own f (.user p) g = .user q → own g = .user q := fun g q hg e => by
    rwa [Function.update_of_ne hg] at e
  refine ⟨fun q x g hl hx hg hq => ?_, fun q x n hl hx hn => ?_, fun q x hl hx hc => ?_⟩
  · simp only [pagedIn]
    rcases eq_or_ne g f with rfl | hgf
    · obtain rfl : p = q := by simpa using hq
      rw [Function.update_self]
      exact hdata x hx
    · rw [Function.update_of_ne hgf]
      exact h.resident q x g hl hx hg (hold g q hgf hq)
  · have hqp : q ≠ p := by
      rintro rfl
      rw [pagedIn_pds, if_pos rfl] at hn
      exact absurd hn (by simp only; omega)
    rw [pagedIn_pds, if_neg hqp] at hn
    simp only [pagedIn, hw]
    exact h.swapped q x n hl hx hn
  · rw [pagedIn_pds] at hc
    split at hc
    · subst_vars
      rcases hc with hd | ⟨hno, -⟩
      · exact h.file _ x hl hx (Or.inl hd)
      · exact absurd (Function.update_self ..) (hno f hr)
    · refine h.file q x hl hx (hc.imp_right fun ⟨hno, hs⟩ => ⟨fun g hg e => hno g hg ?_, hs⟩)
      have hgf : g ≠ f := by rintro rfl; rw [hb] at e; cases e
      rw [Function.update_of_ne hgf]; exact e

end

/-! ## Adding a translation -/

theorem TlbOk.add {m : Nat → Option (PdPtr × Bool)} {own' : Nat → Owner} {k v : Nat} {w d : Bool}
    (h : TlbOk live m own s) (hr : ∀ g, s'.cm.InRange g ↔ s.cm.InRange g)
    (hold : ∀ g q, own g = .user q → own' g = .user q) (hm : m v = some (p, w)) (hv : v < userTop)
    (hf : s.cm.InRange f) (hu : own' f = .user p)
    (hmiss : ∀ j < numTlb, (s.tlb.entries j).valid = true → (s.tlb.entries j).vpage ≠ v)
    (he : s'.tlb.entries = Function.update s.tlb.entries k
      { vpage := v, ppage := f * pageSize, dirty := d, valid := true })
    (hd : d = true → w = true) (hva : ∀ q, live q → (s'.pds q).vaddr = (s.pds q).vaddr) : TlbOk live m own' s' := by
  have hne : ∀ j, j ≠ k → s'.tlb.entries j = s.tlb.entries j := fun j hj => by rw [he, Function.update_of_ne hj]
  have hk : s'.tlb.entries k = { vpage := v, ppage := f * pageSize, dirty := d, valid := true } := by
    rw [he, Function.update_self]
  refine ⟨fun j hj hval => ?_, fun i hi j hj hvi hvj e => ?_, fun j hj hval => ?_, fun v q w hm => ?_⟩
  · rcases eq_or_ne j k with rfl | hjk
    · rw [hk]
      exact ⟨hv, p, w, f, hm, (hr f).mpr hf, hu, rfl, hd⟩
    · rw [hne j hjk] at hval ⊢
      obtain ⟨hlt, q, w', g, hm', hg, hq, hp, hdw⟩ := h.entry j hj hval
      exact ⟨hlt, q, w', g, hm', (hr g).mpr hg, hold g q hq, hp, hdw⟩
  · rcases eq_or_ne i k with rfl | hik <;> rcases eq_or_ne j i with rfl | hji
    · rfl
    · rw [hk, hne j hji] at e
      rw [hne j hji] at hvj
      exact absurd e.symm (hmiss j hj hvj)
    · rfl
    · rcases eq_or_ne j k with rfl | hjk
      · rw [hk, hne i hik] at e
        rw [hne i hik] at hvi
        exact absurd e (hmiss i hi hvi)
      · rw [hne i hik] at hvi e
        rw [hne j hjk] at hvj e
        exact h.uniq i hi j hj hvi hvj e
  · rcases eq_or_ne j k with rfl | hjk
    · rw [hk] at hval; cases hval
    · rw [hne j hjk] at hval ⊢
      exact h.blank j hj hval
  · obtain ⟨hl, e⟩ := h.view v q w hm
    exact ⟨hl, (hva q hl).trans e⟩

def MayMap (G : Ghost) (s : Vm) (v : Nat) (p : PdPtr) (w : Bool) : Prop :=
  ∀ m, G.view = some m → m v = some (p, w) ∧ v < userTop ∧
    ∀ j < numTlb, (s.tlb.entries j).valid = true → (s.tlb.entries j).vpage ≠ v

theorem MayMap.shrinks {v : Nat} {w : Bool} (h : MayMap G s v p w) (ht : s.tlb.Shrinks s'.tlb) : MayMap G s' v p w := by
  intro m hm
  obtain ⟨h1, h2, h3⟩ := h m hm
  refine ⟨h1, h2, fun j hj hv => ?_⟩
  have e := ht j hv
  rw [e] at hv ⊢
  exact h3 j hj hv

theorem frame_aligned (hc : CmOk own fl s.cm) (hr : s.cm.InRange f) : f * pageSize &&& pageFrame = f * pageSize := by
  have := hc.ram
  have := hr.2
  have hlt : f * pageSize < 2 ^ 32 := by unfold pageSize; omega
  rw [and_pageFrame_eq_iff hlt]
  exact Nat.mul_mod_left ..

def Maps (s : Vm) (v f : Nat) : Prop :=
  ∃ k < numTlb, (s.tlb.entries k).valid = true ∧ (s.tlb.entries k).vpage = v ∧ (s.tlb.entries k).ppage = f * pageSize

theorem Good.fill (h : Good G own fl s) (data : Page) (swap : Swap) (tlb : Tlb) (hr : s.cm.InRange f)
    (hb : own f = .busy) (hl : G.live p) (hno : ∀ g, s.cm.InRange g → own g ≠ .user p)
    (hsw : (swap = s.swap ∧ (s.pds p).sfn = -1) ∨ ∃ n : Nat, (s.pds p).sfn = n ∧ swap = pushed s.swap n)
    (hdata : ∀ x, G.abs p = some x → SamePage data x)
    (ht : ∀ m, G.view = some m → TlbOk G.live m (Function.update own f (.user p)) (pagedIn s f p data swap tlb)) :
    Good G (Function.update own f (.user p)) fl (pagedIn s f p data swap tlb) := by
  obtain ⟨sl, hc⟩ := h.core
  have hwd : swap.data = s.swap.data := by
    rcases hsw with ⟨rfl, -⟩ | ⟨n, -, rfl⟩ <;> rfl
  have hslots : ∃ sl', SwOk G.live sl' (pagedIn s f p data swap tlb) := by
    rcases hsw with ⟨rfl, hs⟩ | ⟨n, hs, rfl⟩
    · exact ⟨sl, pagedIn_sw_file hc.sw hs⟩
    · exact ⟨n :: sl, pagedIn_sw_swap hc.sw hl hs⟩
  obtain ⟨sl', hsl'⟩ := hslots
  refine ⟨⟨sl', pagedIn_cm hc.cm hr hb, pagedIn_pg hc.pg hr hb hl hno, hsl'⟩, ht,
    pagedIn_data h.data hr hb hwd hdata, fun q hq => ?_⟩
  rw [pagedIn_pds]
  split
  · subst_vars; exact h.fixed _ hq
  · exact h.fixed q hq

theorem pagedIn_vaddr {data : Page} {swap : Swap} {tlb : Tlb} (q : PdPtr) :
    ((pagedIn s f p data swap tlb).pds q).vaddr = (s.pds q).vaddr := by
  rw [pagedIn_pds]
  split
  · subst_vars; rfl
  · rfl

theorem user_of_update (hb : own f = .busy) (g : Nat) (q : PdPtr) (e : own g = .user q) :
    Function.update own f (.user p) g = .user q := by
  have hgf : g ≠ f := by rintro rfl; rw [hb] at e; cases e
  rw [Function.update_of_ne hgf]; exact e

theorem pagedIn_good {v : Nat} {w : Bool} {data : Page} {swap : Swap} (h : Good G own fl s) (hr : s.cm.InRange f)
    (hb : own f = .busy) (hl : G.live p) (hno : ∀ g, s.cm.InRange g → own g ≠ .user p) (hv : v &&& pageFrame = v)
    (hmap : MayMap G s v p w) (hsw : (swap = s.swap ∧ (s.pds p).sfn = -1) ∨ ∃ n : Nat,
      (s.pds p).sfn = n ∧ swap = pushed s.swap n)
    (hdata : ∀ x, G.abs p = some x → SamePage data x) :
    ∃ tlb, tlbAddEntry s.tlb v (f * pageSize) w = .ok tlb ∧
      Good G (Function.update own f (.user p)) fl (pagedIn s f p data swap tlb) ∧
      Maps (pagedIn s f p data swap tlb) v f := by
  obtain ⟨sl, hc⟩ := h.core
  obtain ⟨tlb, ht, k, hk, he⟩ := tlbAddEntry_spec s.tlb w hv (frame_aligned hc.cm hr)
  refine ⟨tlb, ht, h.fill data swap tlb hr hb hl hno hsw hdata fun m hm => ?_, k, hk, by simp [pagedIn, he]⟩
  obtain ⟨hmv, hlt, hmiss⟩ := hmap m hm
  exact (h.tlb m hm).add (fun _ => Iff.rfl) (user_of_update hb) hmv hlt hr (Function.update_self ..) hmiss he id
    fun q _ => pagedIn_vaddr q

/-! ## The sections of `pt_page_in` put together -/

section
variable {v : Nat} {seg : Segment} {tlb : Tlb}

theorem pdFrame_eq (h : (s.pds p).pfn = f) : pdFrame s p = .ok f := by
  simp [pdFrame, h]

theorem pageInMap_eq (f : Nat) (tlb : Tlb) (h : (s.pds p).pfn = f) (hs : (s.pds p).sfn = -1)
    (ht : tlbAddEntry s.tlb v (f * pageSize) (seg.writeable != 0) = .ok tlb) :
    pageInMap s p v seg = .ok (pagedIn s f p (s.mem f) s.swap tlb) := by
  have hpd : ({ s.pds p with pfn := f, valid := true } : PageDetail) =
      { s.pds p with pfn := f, valid := true, sfn := -1 } := by rw [← hs]
  simp only [pageInMap, pdFrame_eq h, ht, raise_ok, bind, Except.bind, cmFinishPaging, pagedIn, Function.update_eq_self,
    Vm.modifyPd, hpd]

theorem pageIn_swap_eq {n : Nat} (hs : (s.pds p).sfn = n) (hn : n < swapPages)
    (ht : tlbAddEntry s.tlb v (f * pageSize) (seg.writeable != 0) = .ok tlb) :
    (do let s ← pageInRead (s.modifyPd p fun d => { d with pfn := f }) p
        let s ← pageInRelease s p
        pageInMap s p v seg) = .ok (pagedIn s f p (s.swap.data n) (pushed s.swap n) tlb) := by
  have hlt : (0 : Int) ≤ n ∧ (n : Int) < swapPages := by omega
  have hpf : ((s.modifyPd p fun d => { d with pfn := f }).pds p).pfn = f := by simp
  simp only [pageInRead, pdFrame_eq hpf, Vm.modifyPd_self, Vm.modifyPd_swap, hs, swapReadPage, if_pos hlt, raise_ok,
    Int.toNat_natCast, pageInRelease, swapPush, bind, Except.bind]
  refine (pageInMap_eq f tlb ?_ ?_ ?_).trans ?_
  · simp
  · simp
  · exact ht
  · simp [pagedIn, pushed, Vm.modifyPd]

theorem pageInLoad_eq {file : List UInt8} {resid : Nat} {e : Option Errno} {data : Page} (h : (s.pds p).pfn = f)
    (hl : loadSegmentPage file v seg (s.mem f) resid = .ok (e, data)) :
    pageInLoad s p file v seg resid = .ok { s with mem := Function.update s.mem f data } := by
  unfold pageInLoad
  rw [pdFrame_eq h, bind_eq_ok]
  refine ⟨f, rfl, ?_⟩
  rw [hl]
  rfl

theorem pageInLoad_error {file : List UInt8} {resid : Nat} {why : Panic} (h : (s.pds p).pfn = f)
    (hl : loadSegmentPage file v seg (s.mem f) resid = .error why) :
    pageInLoad s p file v seg resid = .error { why, vm := s } := by
  unfold pageInLoad
  rw [pdFrame_eq h, bind_eq_error]
  refine Or.inr ⟨f, rfl, ?_⟩
  rw [hl]
  rfl

theorem pageIn_load_eq {file : List UInt8} {resid : Nat} {e : Option Errno} {data : Page} (hs : (s.pds p).sfn = -1)
    (hl : loadSegmentPage file v seg (s.mem f) resid = .ok (e, data))
    (ht : tlbAddEntry s.tlb v (f * pageSize) (seg.writeable != 0) = .ok tlb) :
    (do let s ← pageInLoad (s.modifyPd p fun d => { d with pfn := f }) p file v seg resid
        pageInMap s p v seg) = .ok (pagedIn s f p data s.swap tlb) := by
  have hpf : ((s.modifyPd p fun d => { d with pfn := f }).pds p).pfn = f := by simp
  rw [pageInLoad_eq hpf hl, bind_eq_ok]
  refine ⟨_, rfl, (pageInMap_eq f tlb ?_ ?_ ?_).trans ?_⟩
  · simp
  · simpa using hs
  · exact ht
  · simp [pagedIn, Vm.modifyPd]

end

/-! ## Page-in as a whole -/

structure PagesOnly (G : Ghost) (own : Nat → Owner) (s : Vm) (own' : Nat → Owner) (s' : Vm) : Prop where
  size : s'.cm.size = s.cm.size
  lowest : s'.cm.lowestFrame = s.cm.lowestFrame
  held : ∀ g, (own g).Held → own' g = own g ∧ (s'.cm.coreDetails g).kern = (s.cm.coreDetails g).kern ∧
    s'.mem g = s.mem g
  back : ∀ g, (own' g).Held → own' g = own g
  other : ∀ q, ¬ G.live q → SameDetail (s.pds q) (s'.pds q)

theorem PagesOnly.inRange {own' : Nat → Owner} (h : PagesOnly G own s own' s') (g : Nat) :
    s'.cm.InRange g ↔ s.cm.InRange g := by
  unfold Cm.InRange; rw [h.size, h.lowest]

theorem PagesOnly.trans {own' own'' : Nat → Owner} {s'' : Vm} (h : PagesOnly G own s own' s')
    (h' : PagesOnly G own' s' own'' s'') : PagesOnly G own s own'' s'' where
  size := h'.size.trans h.size
  lowest := h'.lowest.trans h.lowest
  held g hg := by
    obtain ⟨e, hk, hm⟩ := h.held g hg
    obtain ⟨e', hk', hm'⟩ := h'.held g (by rwa [e])
    exact ⟨e'.trans e, hk'.trans hk, hm'.trans hm⟩
  back g hg := by
    have e' := h'.back g hg
    rw [e'] at hg ⊢
    exact h.back g hg
  other q hq := (h.other q hq).trans (h'.other q hq)

theorem Gives.pagesOnly {fl' : List Nat} (h : Gives own fl s fl' s' f) (hl : G.live p)
    (hu : ∀ q, own f = .user q → G.live q) (data : Page) (swap : Swap) (tlb : Tlb) :
    PagesOnly G own s (Function.update own f (.user p)) (pagedIn s' f p data swap tlb) where
  size := h.size
  lowest := h.lowest
  held g hg := by
    have hgf : g ≠ f := by
      rintro rfl
      rcases h.way with ⟨-, e, -⟩ | ⟨-, -, -, ⟨q, e⟩, -⟩ <;> rw [e] at hg <;> exact hg
    rw [pagedIn_kern, if_neg hgf, h.kern g hgf]
    simp [pagedIn, hgf, h.mem]
  back g hg := by
    have hgf : g ≠ f := by
      rintro rfl
      rw [Function.update_self] at hg
      exact hg
    exact Function.update_of_ne hgf ..
  other q hq := by
    rw [pagedIn_pds, if_neg (by rintro rfl; exact hq hl)]
    exact h.details q fun e => hq (hu q e)

theorem pagedIn_kernOk {fl' : List Nat} {data : Page} {swap : Swap} {tlb : Tlb} (h : Gives own fl s fl' s' f)
    (hk : KernOk (Function.update own f .busy) s'.cm) :
    KernOk (Function.update own f (.user p)) (pagedIn s' f p data swap tlb).cm := by
  refine hk.congr (fun _ => Iff.rfl) fun g _ => ?_
  rcases eq_or_ne g f with rfl | hgf
  · left
    rw [Function.update_self]
    show ((pagedIn s' g p data swap tlb).cm.coreDetails g).kern = 0
    rw [pagedIn_kern, if_pos rfl]
  · right
    rw [Function.update_of_ne hgf, Function.update_of_ne hgf]
    exact ⟨rfl, by rw [pagedIn_kern, if_neg hgf], by simp [pagedIn, Cm.modify_of_ne hgf]⟩

theorem Good.setUse (h : Good G own fl s) (p : PdPtr) (b : Bool) :
    Good G own fl (s.modifyPd p fun d => { d with use := b }) := by
  obtain ⟨sl, hc⟩ := h.core
  have hd : ∀ q, SameDetail (s.pds q) ((s.modifyPd p fun d => { d with use := b }).pds q) := fun q => by
    rw [Vm.modifyPd_pds]
    split
    · subst_vars; rfl
    · rfl
  exact h.congr hc.cm (fun _ => Iff.rfl) (fun _ _ => Iff.rfl) (fun _ => rfl) (fun q _ => hd q) (fun _ _ _ _ => rfl) rfl
    fun m hm => (h.tlb m hm).congr (fun _ => Iff.rfl) (fun _ _ => Iff.rfl) rfl fun q _ => (hd q).vaddr

section
variable {v resid : Nat} {seg : Segment} {file : List UInt8}

def PageIsIn (G : Ghost) (own : Nat → Owner) (s : Vm) (v : Nat) (p : PdPtr) (s' : Vm) : Prop :=
  ∃ own' fl' f, Good G own' fl' s' ∧ KernOk own' s'.cm ∧ PagesOnly G own s own' s' ∧ s.cm.InRange f ∧
    own' f = .user p ∧ Maps s' v f

def PageInFails (G : Ghost) (own : Nat → Owner) (fl : List Nat) (s : Vm) (file : List UInt8) (v : Nat) (seg : Segment)
    (resid : Nat) (p : PdPtr) (c : Crash) : Prop :=
  (∀ g, s.cm.InRange g → own g ≠ .user p) ∧
    (GetFails G own fl s c ∨ ((s.pds p).pfn = -1 ∧ (s.pds p).sfn = -1 ∧
      ∃ frame, loadSegmentPage file v seg frame resid = .error c.why))

variable (h : Good G own fl s) (hk : KernOk own s.cm) (hl : G.live p) (hmap : MayMap G s v p (seg.writeable != 0))
include h hk hl hmap

theorem pageInHit_good (hv : v &&& pageFrame = v) (hin : (s.pds p).pfn ≠ -1) :
    ∃ s', pageInHit s p v seg = .ok s' ∧ PageIsIn G own s v p s' := by
  obtain ⟨sl, hc⟩ := h.core
  obtain ⟨f, hr, hu, hpf, -⟩ := hc.pg.resident hl (Or.inl hin)
  obtain ⟨tlb, ht, k, hk', he⟩ := tlbAddEntry_spec s.tlb (seg.writeable != 0) hv (frame_aligned hc.cm hr)
  have hg := h.setUse p true
  have hpf' : ((s.modifyPd p fun d => { d with use := true }).pds p).pfn = f := by simpa using hpf
  refine ⟨{ s.modifyPd p fun d => { d with use := true } with tlb := tlb }, ?_, own, fl, f, ?_, hk, ?_,
    hr, hu, k, hk', ?_⟩
  · simp only [pageInHit, pdFrame_eq hpf', Vm.modifyPd_tlb, ht, raise_ok, bind, Except.bind]
  · obtain ⟨sl', hc'⟩ := hg.core
    refine hg.congr hc'.cm (fun _ => Iff.rfl) (fun _ _ => Iff.rfl) (fun _ => rfl) (fun _ _ => SameDetail.refl _)
      (fun _ _ _ _ => rfl) rfl fun m hm => ?_
    obtain ⟨hmv, hlt, hmiss⟩ := hmap m hm
    exact (hg.tlb m hm).add (fun _ => Iff.rfl) (fun _ _ e => e) hmv hlt hr hu hmiss he id fun _ _ => rfl
  · refine ⟨rfl, rfl, fun g _ => ⟨rfl, rfl, rfl⟩, fun g _ => rfl, fun q hq => ?_⟩
    have hqp : q ≠ p := by rintro rfl; exact hq hl
    show SameDetail (s.pds q) ((s.modifyPd p fun d => { d with use := true }).pds q)
    rw [Vm.modifyPd_of_ne hqp]
    exact SameDetail.refl _
  · simp [he]

theorem pageInFrame_good {k : Vm → Except Crash Vm} (hh : HalfAtClock own s.cm) (haway : (s.pds p).pfn = -1)
    (hrest : ∀ f fl' s', Good G (Function.update own f .busy) fl' s' →
      (∀ g, s'.cm.InRange g → Function.update own f .busy g ≠ .user p) → SameDetail (s.pds p) (s'.pds p) →
      s'.cm.InRange f → MayMap G s' v p (seg.writeable != 0) →
      Post (k (s'.modifyPd p fun d => { d with pfn := f }))
        (fun r => ∃ data swap tlb, r = pagedIn s' f p data swap tlb ∧ Good G (Function.update own f (.user p)) fl' r ∧
          Maps r v f)
        (PageInFails G own fl s file v seg resid p)) :
    Post (pageInFrame s p >>= k) (PageIsIn G own s v p) (PageInFails G own fl s file v seg resid p) := by
  obtain ⟨sl, hc⟩ := h.core
  have hno : ∀ g, s.cm.InRange g → own g ≠ .user p := fun g hg e => by
    have := (hc.pg.user g p hg e).2.2.1
    rw [haway] at this; omega
  have hg := h.setUse p true
  unfold pageInFrame
  rw [bind_assoc]
  have hget := cmGetppage_good hg hk hh
  refine (hget.mono (fun _ hr => hr) fun c hc => ⟨hno, Or.inl hc⟩).bind ?_
  rintro ⟨f, s'⟩ - ⟨fl', hg', hk', hgive⟩
  have hr' : s'.cm.InRange f := by
    have := hgive.inRange
    unfold Cm.InRange at this ⊢
    rw [hgive.size, hgive.lowest]; exact this
  have hfp : own f ≠ .user p := hno f hgive.inRange
  have hd : SameDetail (s.pds p) (s'.pds p) := by
    have h1 : SameDetail (s.pds p) ((s.modifyPd p fun d => { d with use := true }).pds p) := by
      rw [Vm.modifyPd_self]; rfl
    exact h1.trans (hgive.details p hfp)
  have hno' : ∀ g, s'.cm.InRange g → Function.update own f .busy g ≠ .user p := by
    intro g hgr e
    rcases eq_or_ne g f with rfl | hgf
    · simp at e
    · rw [Function.update_of_ne hgf] at e
      refine hno g ?_ e
      unfold Cm.InRange at hgr ⊢
      rwa [hgive.size, hgive.lowest] at hgr
  have hmap' : MayMap G s' v p (seg.writeable != 0) :=
    (MayMap.shrinks hmap (Tlb.Shrinks.refl _) : MayMap G (s.modifyPd p fun d => { d with use := true }) v p _).shrinks
      hgive.tlb
  refine (hrest f fl' s' hg' hno' hd hr' hmap').mono ?_ fun c hc => hc
  rintro r ⟨data, swap, tlb, rfl, hgood, hmaps⟩
  have hlive : ∀ q, own f = .user q → G.live q := fun q e => (hc.pg.user f q hgive.inRange e).1
  refine ⟨_, fl', f, hgood, pagedIn_kernOk hgive hk', ?_, hgive.inRange, Function.update_self .., hmaps⟩
  have hpo := hgive.pagesOnly hl hlive data swap tlb
  refine ⟨hpo.size, hpo.lowest, hpo.held, hpo.back, fun q hq => ?_⟩
  have := hpo.other q hq
  rwa [Vm.modifyPd_of_ne (by rintro rfl; exact hq hl)] at this

theorem ptPageIn_good {pt : PageTable} (hv : v &&& pageFrame = v) (hh : HalfAtClock own s.cm)
    (hpt : seg.pt = some pt) (hp : p = ⟨pt.block, u32 (v + 2 ^ 32 - seg.vbase) / pageSize⟩)
    (hi : u32 (v + 2 ^ 32 - seg.vbase) / pageSize < pt.size)
    (hload : G.abs p ≠ none → (s.pds p).pfn = -1 → (s.pds p).sfn = -1 → ∀ frame e data,
      loadSegmentPage file v seg frame resid = .ok (e, data) → SamePage data (G.img p)) :
    Post (ptPageIn s file v seg resid) (PageIsIn G own s v p) (PageInFails G own fl s file v seg resid p) := by
  obtain ⟨sl, hc⟩ := h.core
  unfold ptPageIn
  simp only [hpt, hi, if_true, ← hp]
  by_cases hit : (s.pds p).valid = true ∧ (s.pds p).pfn ≠ -1
  · rw [if_pos hit]
    obtain ⟨s', he, hin⟩ := pageInHit_good h hk hl hmap hv hit.2
    rw [he]
    exact hin
  · rw [if_neg hit]
    have haway : (s.pds p).pfn = -1 := by
      by_contra hne
      obtain ⟨-, -, -, -, hval⟩ := hc.pg.resident hl (Or.inl hne)
      exact hit ⟨hval, hne⟩
    by_cases hs : (s.pds p).sfn ≠ -1
    · rw [if_pos hs]
      refine pageInFrame_good h hk hl hmap hh haway fun f fl' s' hg hno hd hr hm => ?_
      obtain ⟨n, hn, hsn⟩ : ∃ n < swapPages, (s'.pds p).sfn = (n : Int) := by
        rw [hd]
        rcases hc.sw.sfn p hl with e | ⟨n, hn, e, -⟩
        · exact absurd e hs
        · exact ⟨n, hn, e⟩
      obtain ⟨tlb, ht, hgood, hmaps⟩ := pagedIn_good hg hr (Function.update_self ..) hl hno hv hm
        (Or.inr ⟨n, hsn, rfl⟩) fun x hx => hg.data.swapped p x n hl hx hsn
      rw [pageIn_swap_eq hsn hn ht]
      refine ⟨_, _, tlb, rfl, ?_, hmaps⟩
      simpa using hgood
    · rw [if_neg hs]
      refine pageInFrame_good h hk hl hmap hh haway fun f fl' s' hg hno hd hr hm => ?_
      have hsn : (s'.pds p).sfn = -1 := by rw [hd]; simpa using hs
      cases hld : loadSegmentPage file v seg (s'.mem f) resid with
      | error why =>
        have hpf : ((s'.modifyPd p fun d => { d with pfn := f }).pds p).pfn = f := by simp
        rw [pageInLoad_error hpf hld]
        refine ⟨fun g hg' e => ?_, Or.inr ⟨haway, by simpa using hs, _, hld⟩⟩
        have := (hc.pg.user g p hg' e).2.2.1
        rw [haway] at this; omega
      | ok r =>
        obtain ⟨e, data⟩ := r
        have hdata : ∀ x, G.abs p = some x → SamePage data x := fun x hx =>
          (hload (by rw [hx]; simp) haway (by simpa using hs) _ e data hld).trans
            (hg.data.file p x hl hx (Or.inr ⟨hno, hsn⟩))
        obtain ⟨tlb, ht, hgood, hmaps⟩ := pagedIn_good hg hr (Function.update_self ..) hl hno hv hm
          (Or.inl ⟨rfl, hsn⟩) hdata
        rw [pageIn_load_eq hsn hld ht]
        refine ⟨_, _, tlb, rfl, ?_, hmaps⟩
        simpa using hgood

end

/-! ## A fault -/

theorem vmFault_good {as : AddrSpace} {a resid : Nat} {file : List UInt8} (ft : FaultType) (h : Good G own fl s)
    (hk : KernOk own s.cm) (hh : HalfAtClock own s.cm) (hs : SpaceOk as) (hlive : ∀ q ∈ as.pages, G.live q)
    (hview : ∀ m, G.view = some m → m = as.view ∧
      ∀ j < numTlb, (s.tlb.entries j).valid = true → (s.tlb.entries j).vpage ≠ a &&& pageFrame)
    (hload : ∀ i q w, asGetSegment as (a &&& pageFrame) = some i → as.view (a &&& pageFrame) = some (q, w) →
      G.abs q ≠ none → (s.pds q).pfn = -1 → (s.pds q).sfn = -1 → ∀ frame e data,
      loadSegmentPage file (a &&& pageFrame) (as.segments i) frame resid = .ok (e, data) → SamePage data (G.img q)) :
    Post (vmFault s (some as) file ft a resid)
      (fun r => (r.2 = s ∧ faultSegment as ft (a &&& pageFrame) = .ok (.inr r.1)) ∨
        (r.1 = .handled ∧ ∃ q w, as.view (a &&& pageFrame) = some (q, w) ∧ PageIsIn G own s (a &&& pageFrame) q r.2))
      (fun c => (c.why = .assertionFailed .faultHasSegment ∧ asGetSegment as (a &&& pageFrame) = none) ∨
        ∃ i q w, asGetSegment as (a &&& pageFrame) = some i ∧ as.view (a &&& pageFrame) = some (q, w) ∧
          PageInFails G own fl s file (a &&& pageFrame) (as.segments i) resid q c) := by
  have hmod := and_pageFrame_mod a
  have hal : a &&& pageFrame &&& pageFrame = a &&& pageFrame := (and_pageFrame_eq_iff (and_pageFrame_lt a)).mpr hmod
  unfold vmFault
  generalize a &&& pageFrame = v at *
  simp only
  cases hf : faultSegment as ft v with
  | error why =>
    obtain rfl := faultSegment_error hf
    exact Or.inl ⟨rfl, (faultSegment_assert.mp hf).2.2⟩
  | ok r =>
    cases r with
    | inr r => exact Or.inl ⟨rfl, rfl⟩
    | inl i =>
      obtain ⟨hvalid, hg⟩ := faultSegment_inl hf
      obtain ⟨block, hpt, hidx, hmem⟩ := page_of_segment hs hg
      have hvw := view_eq_some.mpr ⟨hmod, hvalid, i, _, hg, hpt, rfl, rfl⟩
      have hmap : MayMap G s v ⟨block, _⟩ ((as.segments i).writeable != 0) := fun m hm => by
        obtain ⟨rfl, hmiss⟩ := hview m hm
        exact ⟨hvw, asValidAddr_lt hvalid, hmiss⟩
      have hin := ptPageIn_good h hk (hlive _ hmem) hmap hal hh hpt rfl hidx (hload i _ _ hg hvw)
      refine (hin.mono (fun s' hs' => hs') fun c hc => Or.inr ⟨i, _, _, hg, hvw, hc⟩).bind fun s' _ hs' => ?_
      exact Or.inr ⟨rfl, _, _, hvw, hs'⟩

end Os161
