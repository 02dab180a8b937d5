import Os161.CoremapSound
import Os161.Swapfile

/-!
# Ownership of pages and swap slots

`PgOk` ties the pages that are alive to the frames they have, `SwOk` to the
slots they have. `Core` is the part of the invariant that does not speak of
the `kern` fields, which `cm_request_kframes` sets long before it has
cleared the frames.
-/

namespace Os161

open Linked Outcome

structure PgOk (live : PdPtr → Prop) (own : Nat → Owner) (s : Vm) : Prop where
  user : ∀ f p, s.cm.InRange f → own f = .user p →
    live p ∧ (s.cm.coreDetails f).pd = some p ∧ (s.pds p).pfn = f ∧ (s.pds p).valid = true
  away : ∀ p, live p → (∀ f, s.cm.InRange f → own f ≠ .user p) → (s.pds p).pfn = -1 ∧ (s.pds p).valid = false
  aligned : ∀ p, live p → (s.pds p).vaddr &&& pageFrame = (s.pds p).vaddr

structure SwOk (live : PdPtr → Prop) (sl : List Nat) (s : Vm) : Prop where
  chain : Chain s.swap.next s.swap.freePages sl
  nodup : sl.Nodup
  lt : ∀ n ∈ sl, n < swapPages
  index : ∀ n < swapPages, s.swap.index n = n
  sfn : ∀ p, live p → (s.pds p).sfn = -1 ∨
    ∃ n < swapPages, (s.pds p).sfn = (n : Int) ∧ n ∉ sl ∧ (s.pds p).pfn = -1
  inj : ∀ p q (n : Nat), live p → live q → (s.pds p).sfn = n → (s.pds q).sfn = n → p = q
  cover : ∀ n < swapPages, n ∈ sl ∨ ∃ p, live p ∧ (s.pds p).sfn = (n : Int)

structure Core (live : PdPtr → Prop) (own : Nat → Owner) (fl sl : List Nat) (s : Vm) : Prop where
  cm : CmOk own fl s.cm
  pg : PgOk live own s
  sw : SwOk live sl s

def SwapFull (live : PdPtr → Prop) (s : Vm) : Prop := ∀ n < swapPages, ∃ p, live p ∧ (s.pds p).sfn = (n : Int)

/-- What is tracked beside the state: the pages that are alive, the pages
the TLB may translate to with their write permission (if anything is known),
the bytes each page should hold (if known), the bytes it has when it is read
from its file, and the two fields of its details that are set only once. -/
structure Ghost where
  live : PdPtr → Prop
  view : Option (Nat → Option (PdPtr × Bool))
  abs : PdPtr → Option Page
  img : PdPtr → Page
  vaddr : PdPtr → Nat
  dirty : PdPtr → Bool

/-- The TLB translates to pages of `m` where they are. Slots that are not
valid hold kernel addresses, which no lookup of a user address matches. -/
structure TlbOk (live : PdPtr → Prop) (m : Nat → Option (PdPtr × Bool)) (own : Nat → Owner) (s : Vm) : Prop where
  entry : ∀ k < numTlb, (s.tlb.entries k).valid = true → (s.tlb.entries k).vpage < userTop ∧
    ∃ p w f, m (s.tlb.entries k).vpage = some (p, w) ∧ s.cm.InRange f ∧ own f = .user p ∧
      (s.tlb.entries k).ppage = f * pageSize ∧ ((s.tlb.entries k).dirty = true → w = true)
  uniq : ∀ j < numTlb, ∀ k < numTlb, (s.tlb.entries j).valid = true → (s.tlb.entries k).valid = true →
    (s.tlb.entries j).vpage = (s.tlb.entries k).vpage → j = k
  blank : ∀ k < numTlb, (s.tlb.entries k).valid = false → userTop ≤ (s.tlb.entries k).vpage
  view : ∀ v p w, m v = some (p, w) → live p ∧ (s.pds p).vaddr = v

/-- The known bytes of a page are in its frame, or in its slot, or still in
its file; those of a page that is never written out always are in its file. -/
structure DataOk (G : Ghost) (own : Nat → Owner) (s : Vm) : Prop where
  resident : ∀ p x f, G.live p → G.abs p = some x → s.cm.InRange f → own f = .user p → SamePage (s.mem f) x
  swapped : ∀ p x (n : Nat), G.live p → G.abs p = some x → (s.pds p).sfn = n → SamePage (s.swap.data n) x
  file : ∀ p x, G.live p → G.abs p = some x →
    ((s.pds p).dirty = false ∨ ((∀ f, s.cm.InRange f → own f ≠ .user p) ∧ (s.pds p).sfn = -1)) →
    SamePage (G.img p) x

structure Good (G : Ghost) (own : Nat → Owner) (fl : List Nat) (s : Vm) : Prop where
  core : ∃ sl, Core G.live own fl sl s
  tlb : ∀ m, G.view = some m → TlbOk G.live m own s
  data : DataOk G own s
  fixed : ∀ p, G.live p → (s.pds p).vaddr = G.vaddr p ∧ (s.pds p).dirty = G.dirty p

def Owner.Held : Owner → Prop
  | .kernel => True
  | .busy => True
  | _ => False

theorem Owner.Held.ne_free {o : Owner} (h : o.Held) : o ≠ .free := by rintro rfl; exact h

theorem Owner.Held.ne_user {o : Owner} (h : o.Held) (p : PdPtr) : o ≠ .user p := by rintro rfl; exact h

variable {live : PdPtr → Prop} {own : Nat → Owner} {fl sl : List Nat} {s : Vm} {f : Nat} {p q : PdPtr}

/-! ## Where a page is -/

theorem PgOk.inj (h : PgOk live own s) {f g : Nat} (hf : s.cm.InRange f) (hg : s.cm.InRange g)
    (ef : own f = .user p) (eg : own g = .user p) : f = g := by
  have h₁ := (h.user f p hf ef).2.2.1
  have h₂ := (h.user g p hg eg).2.2.1
  omega

theorem PgOk.resident (h : PgOk live own s) (hp : live p) (hne : (s.pds p).pfn ≠ -1 ∨ (s.pds p).valid = true) :
    ∃ f, s.cm.InRange f ∧ own f = .user p ∧ (s.pds p).pfn = f ∧ (s.pds p).valid = true := by
  by_contra hc
  have : ∀ f, s.cm.InRange f → own f ≠ .user p := fun f hf e =>
    hc ⟨f, hf, e, (h.user f p hf e).2.2.1, (h.user f p hf e).2.2.2⟩
  have := h.away p hp this
  rcases hne with hne | hne
  · exact hne this.1
  · rw [this.2] at hne; cases hne

theorem Core.user_sfn (h : Core live own fl sl s) (hf : s.cm.InRange f) (e : own f = .user p) :
    (s.pds p).sfn = -1 := by
  obtain ⟨hl, -, hp, -⟩ := h.pg.user f p hf e
  rcases h.sw.sfn p hl with hs | ⟨n, -, -, -, hp'⟩
  · exact hs
  · rw [hp] at hp'; omega

theorem SwOk.free_ne (h : SwOk live sl s) (hq : live q) {n : Nat} (hn : n ∈ sl) : (s.pds q).sfn ≠ (n : Int) := by
  intro e
  rcases h.sfn q hq with hs | ⟨k, -, hs, hns, -⟩
  · rw [hs] at e; omega
  · have : k = n := by omega
    exact hns (this ▸ hn)

/-! ## Changes that move no page -/

def SameDetail (d d' : PageDetail) : Prop := d' = { d with use := d'.use }

theorem PgOk.congr {own' : Nat → Owner} {s' : Vm} (h : PgOk live own s) (hr : ∀ f, s'.cm.InRange f ↔ s.cm.InRange f)
    (hu : ∀ f p, own' f = .user p ↔ own f = .user p)
    (hpd : ∀ f, (s'.cm.coreDetails f).pd = (s.cm.coreDetails f).pd)
    (hd : ∀ q, live q → SameDetail (s.pds q) (s'.pds q)) : PgOk live own' s' := by
  refine ⟨fun f p hf e => ?_, fun p hl hno => ?_, fun p hl => ?_⟩
  · have := h.user f p ((hr f).mp hf) ((hu f p).mp e)
    rw [hpd, hd p this.1]
    exact this
  · rw [hd p hl]
    exact h.away p hl fun f hf e => hno f ((hr f).mpr hf) ((hu f p).mpr e)
  · rw [hd p hl]
    exact h.aligned p hl

theorem SwOk.congr {live' : PdPtr → Prop} {s' : Vm} (h : SwOk live sl s) (hi : s'.swap.index = s.swap.index)
    (hn : s'.swap.next = s.swap.next) (hf : s'.swap.freePages = s.swap.freePages)
    (hto : ∀ q, live' q → (s'.pds q).sfn = -1 ∨
      (live q ∧ (s'.pds q).sfn = (s.pds q).sfn ∧ (s'.pds q).pfn = (s.pds q).pfn))
    (hback : ∀ q, live q → (s.pds q).sfn = -1 ∨ (live' q ∧ (s'.pds q).sfn = (s.pds q).sfn)) : SwOk live' sl s' := by
  have hold : ∀ q (n : Nat), live' q → (s'.pds q).sfn = n → live q ∧ (s.pds q).sfn = n := by
    intro q n hq e
    rcases hto q hq with hs | ⟨hl, hs, -⟩
    · rw [hs] at e; omega
    · exact ⟨hl, hs ▸ e⟩
  refine ⟨by rw [hn, hf]; exact h.chain, h.nodup, h.lt, by rw [hi]; exact h.index, fun q hq => ?_,
    fun q r n hq hr eq er => ?_, fun n hlt => ?_⟩
  · rcases hto q hq with hs | ⟨hl, hs, hp⟩
    · exact Or.inl hs
    · rw [hs, hp]; exact h.sfn q hl
  · obtain ⟨hq, eq⟩ := hold q n hq eq
    obtain ⟨hr, er⟩ := hold r n hr er
    exact h.inj q r n hq hr eq er
  · refine (h.cover n hlt).imp_right fun ⟨q, hq, e⟩ => ?_
    rcases hback q hq with hs | ⟨hl, hs⟩
    · rw [hs] at e; omega
    · exact ⟨q, hl, hs.trans e⟩

theorem DataOk.congr {G : Ghost} {own' : Nat → Owner} {s' : Vm} (h : DataOk G own s)
    (hr : ∀ f, s'.cm.InRange f ↔ s.cm.InRange f) (hu : ∀ f p, own' f = .user p ↔ own f = .user p)
    (hm : ∀ f p, s.cm.InRange f → own f = .user p → s'.mem f = s.mem f) (hw : s'.swap.data = s.swap.data)
    (hd : ∀ q, G.live q → SameDetail (s.pds q) (s'.pds q)) : DataOk G own' s' := by
  refine ⟨fun q x f hq hx hf e => ?_, fun q x n hq hx e => ?_, fun q x hq hx hc => ?_⟩
  · have hf := (hr f).mp hf
    have e := (hu f q).mp e
    rw [hm f q hf e]
    exact h.resident q x f hq hx hf e
  · rw [hd q hq] at e
    rw [hw]
    exact h.swapped q x n hq hx e
  · rw [hd q hq] at hc
    exact h.file q x hq hx (hc.imp_right fun ⟨hno, e⟩ => ⟨fun f hf eu => hno f ((hr f).mpr hf) ((hu f q).mpr eu), e⟩)

/-! ## Dropping a translation -/

theorem TlbOk.keep {m : Nat → Option (PdPtr × Bool)} {s' : Vm} {own' : Nat → Owner} (h : TlbOk live m own s)
    (hr : ∀ f, s'.cm.InRange f ↔ s.cm.InRange f) (hold : ∀ f p, own f = .user p → own' f = .user p)
    (ht : s'.tlb.entries = s.tlb.entries) (hv : ∀ q, live q → (s'.pds q).vaddr = (s.pds q).vaddr) :
    TlbOk live m own' s' := by
  refine ⟨fun k hk hval => ?_, by simpa only [ht] using h.uniq, by simpa only [ht] using h.blank, fun v q w hm => ?_⟩
  · rw [ht] at hval ⊢
    obtain ⟨hlt, q, w, f, hm, hf, hq, hrest⟩ := h.entry k hk hval
    exact ⟨hlt, q, w, f, hm, (hr f).mpr hf, hold f q hq, hrest⟩
  · obtain ⟨hl, e⟩ := h.view v q w hm
    exact ⟨hl, (hv q hl).trans e⟩

theorem TlbOk.congr {m : Nat → Option (PdPtr × Bool)} {s' : Vm} {own' : Nat → Owner} (h : TlbOk live m own s)
    (hr : ∀ f, s'.cm.InRange f ↔ s.cm.InRange f) (hu : ∀ f p, own' f = .user p ↔ own f = .user p)
    (ht : s'.tlb.entries = s.tlb.entries) (hv : ∀ q, live q → (s'.pds q).vaddr = (s.pds q).vaddr) :
    TlbOk live m own' s' :=
  h.keep hr (fun f p => (hu f p).mpr) ht hv

theorem tlbInvalidateVaddr_keeps {m : Nat → Option (PdPtr × Bool)} {tlb : Tlb} {v : Nat} (h : TlbOk live m own s)
    (hinv : tlbInvalidateVaddr s.tlb v = .ok tlb) (hal : v &&& pageFrame = v) :
    TlbOk live m own { s with tlb := tlb } ∧
      ∀ k < numTlb, (tlb.entries k).valid = true → (tlb.entries k).vpage ≠ v := by
  obtain ⟨t', ht', hcase⟩ := tlbInvalidateVaddr_spec s.tlb hal
  obtain rfl : t' = tlb := by rw [ht'] at hinv; exact Except.ok.inj hinv
  obtain ⟨hno, rfl⟩ | ⟨i, hi, hiv, he⟩ := hcase
  · exact ⟨h, fun k hk _ => hno k hk⟩
  · have hk : ∀ k, (t'.entries k).valid = true → k ≠ i ∧ t'.entries k = s.tlb.entries k := by
      intro k hv
      by_cases e : k = i
      · rw [he, e, Function.update_self] at hv; cases hv
      · exact ⟨e, by rw [he, Function.update_of_ne e]⟩
    refine ⟨⟨fun k hkn hv => ?_, fun j hj k hkn hvj hvk e => ?_, fun k hkn hv => ?_, h.view⟩, fun k hkn hv => ?_⟩
    · obtain ⟨-, e⟩ := hk k hv
      simp only [e] at hv ⊢
      exact h.entry k hkn hv
    · obtain ⟨-, ej⟩ := hk j hvj
      obtain ⟨-, ek⟩ := hk k hvk
      simp only [ej, ek] at hvj hvk e
      exact h.uniq j hj k hkn hvj hvk e
    · by_cases e : k = i
      · simp only [he, e, Function.update_self, tlbInvalid, userTop, mipsKseg0]; omega
      · simp only [he, Function.update_of_ne e] at hv ⊢
        exact h.blank k hkn hv
    · obtain ⟨e, ek⟩ := hk k hv
      rw [ek] at hv ⊢
      intro hkv
      -- slot `i` holds the same user address, so it is valid too, and the two are one
      have hlt := (h.entry k hkn hv).1
      cases hvi : (s.tlb.entries i).valid with
      | true => exact e (h.uniq k hkn i hi hv hvi (hkv.trans hiv.symm))
      | false => exact absurd (h.blank i hi hvi) (by rw [hiv, ← hkv]; omega)

/-! ## Evicting a page -/

def evicted (s : Vm) (f : Nat) (p : PdPtr) (tlb : Tlb) (swap : Swap) (sfn : Int) : Vm :=
  { cm := s.cm.modify f fun d => { d with pd := none, nextFree := none }
    pds := Function.update s.pds p { s.pds p with valid := false, use := false, sfn := sfn, pfn := -1 }
    mem := s.mem
    swap := swap
    tlb := tlb }

def swappedOut (w : Swap) (node : Nat) (data : Page) : Swap :=
  { w with freePages := w.next node, data := Function.update w.data (w.index node) data }

theorem cmFreeCore_cases (hpd : (s.cm.coreDetails f).pd = some p)
    (hal : (s.pds p).vaddr &&& pageFrame = (s.pds p).vaddr) :
    ∃ tlb, tlbInvalidateVaddr s.tlb (s.pds p).vaddr = .ok tlb ∧
      (((s.pds p).dirty = false ∧ cmFreeCore s f = .ok (evicted s f p tlb s.swap (-1))) ∨
        ((s.pds p).dirty = true ∧ ∃ node, s.swap.freePages = some node ∧
          cmFreeCore s f = .ok (evicted s f p tlb
            (swappedOut s.swap node (s.mem (s.cm.coreDetails f).id)) (s.swap.index node))) ∨
        ((s.pds p).dirty = true ∧ s.swap.freePages = none ∧
          cmFreeCore s f = .error { why := .outOfSwapSpace, vm := ({ s with tlb := tlb } : Vm).modifyPd p fun d =>
            { d with valid := false, use := false, sfn := -2 } })) := by
  obtain ⟨tlb, htlb, -⟩ := tlbInvalidateVaddr_spec s.tlb hal
  refine ⟨tlb, htlb, ?_⟩
  cases hd : (s.pds p).dirty with
  | false =>
    left
    refine ⟨rfl, ?_⟩
    simp [cmFreeCore, freeCoreBegin, freeCoreEnd, hpd, htlb, hd, evicted, Vm.modifyPd, bind, Except.bind]
  | true =>
    right
    cases hn : s.swap.freePages with
    | none =>
      right
      refine ⟨rfl, rfl, ?_⟩
      simp [cmFreeCore, freeCoreBegin, hpd, htlb, hd, hn, swapWrite, swapTake, Vm.modifyPd, bind, Except.bind]
    | some node =>
      left
      refine ⟨rfl, node, rfl, ?_⟩
      simp [cmFreeCore, freeCoreBegin, freeCoreEnd, hpd, htlb, hd, hn, swapWrite, swapTake, swapWritePage, swappedOut,
        evicted, Vm.modifyPd, bind, Except.bind]

section
variable {o : Owner} {tlb : Tlb} {swap : Swap} {sfn : Int}

@[simp] theorem evicted_mem : (evicted s f p tlb swap sfn).mem = s.mem := rfl

@[simp] theorem evicted_swap : (evicted s f p tlb swap sfn).swap = swap := rfl

@[simp] theorem evicted_tlb : (evicted s f p tlb swap sfn).tlb = tlb := rfl

theorem evicted_pds (q : PdPtr) : (evicted s f p tlb swap sfn).pds q =
    if q = p then { s.pds p with valid := false, use := false, sfn := sfn, pfn := -1 } else s.pds q := by
  simp only [evicted, Function.update_apply]

theorem evicted_cm (h : CmOk own fl s.cm) (hr : s.cm.InRange f) (hu : own f = .user p) (ho : o.Held) :
    CmOk (Function.update own f o) fl (evicted s f p tlb swap sfn).cm := by
  have hf : own f ≠ .free := by rw [hu]; simp
  have hne : ∀ x ∈ fl, x ≠ f := fun x hx e => h.not_mem hf (e ▸ hx)
  refine ⟨h.init, h.room, h.ram, h.clock, fun g hg => ?_, ?_, fun g => ?_, fun g hg => ?_⟩
  · simp only [evicted, Cm.modify_coreDetails]
    split
    · subst_vars; exact h.id_eq _ hr
    · exact h.id_eq g hg
  · exact h.links.congr (fun x hx => by simp [evicted, Cm.modify_of_ne (hne x hx)])
      fun x hx => by simp [evicted, Cm.modify_of_ne (hne x hx)]
  · rw [update_ne_free_iff ho.ne_free, h.mem_fl]
    exact ⟨fun hg => ⟨hg.1, fun e => hf (e ▸ hg.2), hg.2⟩, fun hg => ⟨hg.1, hg.2.2⟩⟩
  · have hg' : s.cm.InRange g := hg
    rw [update_ne_free_iff ho.ne_free]
    simp only [evicted, Cm.modify_coreDetails]
    split
    · subst_vars
      simp [h.flag _ hr, hf]
    · simp_all [h.flag g hg']

theorem evicted_pg (h : PgOk live own s) (hr : s.cm.InRange f) (hu : own f = .user p) (ho : o.Held) :
    PgOk live (Function.update own f o) (evicted s f p tlb swap sfn) := by
  refine ⟨fun g q hg hq => ?_, fun q hl hq => ?_, fun q hl => ?_⟩
  · have hgf : g ≠ f := by
      rintro rfl
      rw [Function.update_self] at hq
      exact ho.ne_user q hq
    rw [Function.update_of_ne hgf] at hq
    have hqp : q ≠ p := by
      rintro rfl
      exact hgf (h.inj hg hr hq hu)
    have := h.user g q hg hq
    rw [evicted_pds, if_neg hqp]
    simpa [evicted, Cm.modify_of_ne hgf] using this
  · rw [evicted_pds]
    by_cases hqp : q = p
    · simp [hqp]
    · rw [if_neg hqp]
      refine h.away q hl fun g hg e => ?_
      by_cases hgf : g = f
      · rw [hgf, hu] at e
        exact hqp (Owner.user.inj e).symm
      · exact hq g hg (by rw [Function.update_of_ne hgf]; exact e)
  · rw [evicted_pds]
    split
    · subst_vars; exact h.aligned _ hl
    · exact h.aligned q hl

theorem evicted_sw_clean (h : Core live own fl sl s) (hr : s.cm.InRange f) (hu : own f = .user p) :
    SwOk live sl (evicted s f p tlb s.swap (-1)) := by
  have hsfn := h.user_sfn hr hu
  have hs : ∀ q, ((evicted s f p tlb s.swap (-1)).pds q).sfn = (s.pds q).sfn := by
    intro q
    rw [evicted_pds]
    split
    · subst_vars; exact hsfn.symm
    · rfl
  refine ⟨h.sw.chain, h.sw.nodup, h.sw.lt, h.sw.index, fun q hl => ?_, fun q r n hq hr' => ?_, fun n hn => ?_⟩
  · rw [hs]
    rcases h.sw.sfn q hl with hq | ⟨n, hn, hq, hns, hpf⟩
    · exact Or.inl hq
    · have hqp : q ≠ p := by rintro rfl; rw [hsfn] at hq; omega
      exact Or.inr ⟨n, hn, hq, hns, by rw [evicted_pds, if_neg hqp]; exact hpf⟩
  · rw [hs, hs]; exact h.sw.inj q r n hq hr'
  · simp only [hs]; exact h.sw.cover n hn

theorem evicted_sw_dirty {node : Nat} {data : Page} (h : Core live own fl (node :: sl) s) (hr : s.cm.InRange f)
    (hu : own f = .user p) :
    SwOk live sl (evicted s f p tlb (swappedOut s.swap node data) (s.swap.index node)) := by
  have hsfn := h.user_sfn hr hu
  have hlp := (h.pg.user f p hr hu).1
  have hnode := h.sw.lt node (List.mem_cons_self ..)
  have hnd := List.nodup_cons.mp h.sw.nodup
  rw [h.sw.index node hnode]
  have hs : ∀ q, q ≠ p → (evicted s f p tlb (swappedOut s.swap node data) node).pds q = s.pds q := fun q hq => by
    rw [evicted_pds, if_neg hq]
  have hsp : ((evicted s f p tlb (swappedOut s.swap node data) node).pds p).sfn = (node : Int) := by
    rw [evicted_pds, if_pos rfl]
  -- no other page has the slot that was on the free list
  have hfresh : ∀ q, live q → (s.pds q).sfn ≠ (node : Int) := fun q hl => h.sw.free_ne hl (List.mem_cons_self ..)
  refine ⟨h.sw.chain.2, hnd.2, fun n hn => h.sw.lt n (List.mem_cons_of_mem _ hn), h.sw.index, fun q hl => ?_,
    fun q r n hq hr' eq er => ?_, fun n hn => ?_⟩
  · by_cases hqp : q = p
    · subst hqp
      exact Or.inr ⟨node, hnode, hsp, hnd.1, by rw [evicted_pds, if_pos rfl]⟩
    · rw [hs q hqp]
      rcases h.sw.sfn q hl with hq | ⟨n, hn, hq, hns, hpf⟩
      · exact Or.inl hq
      · exact Or.inr ⟨n, hn, hq, fun hm => hns (List.mem_cons_of_mem _ hm), hpf⟩
  · by_cases hqp : q = p
    · by_cases hrp : r = p
      · rw [hqp, hrp]
      · rw [hqp, hsp] at eq
        rw [hs r hrp] at er
        exact absurd (by omega) (hfresh r hr')
    · rw [hs q hqp] at eq
      by_cases hrp : r = p
      · rw [hrp, hsp] at er
        exact absurd (by omega) (hfresh q hq)
      · rw [hs r hrp] at er
        exact h.sw.inj q r n hq hr' eq er
  · rcases h.sw.cover n hn with hm | ⟨q, hl, hq⟩
    · rcases List.mem_cons.mp hm with rfl | hm
      · exact Or.inr ⟨p, hlp, hsp⟩
      · exact Or.inl hm
    · have hqp : q ≠ p := by rintro rfl; rw [hsfn] at hq; omega
      exact Or.inr ⟨q, hl, by rw [hs q hqp]; exact hq⟩

end

structure Evicts (s s' : Vm) (f : Nat) (p : PdPtr) : Prop where
  same : s'.cm.size = s.cm.size ∧ s'.cm.lowestFrame = s.cm.lowestFrame ∧ s'.cm.clockPointer = s.cm.clockPointer
  kern : ∀ g, (s'.cm.coreDetails g).kern = (s.cm.coreDetails g).kern
  free : ∀ g, (s'.cm.coreDetails g).free = (s.cm.coreDetails g).free
  id : ∀ g, (s'.cm.coreDetails g).id = (s.cm.coreDetails g).id
  pd : ∀ g, (s'.cm.coreDetails g).pd = if g = f then none else (s.cm.coreDetails g).pd
  pds : ∀ q, q ≠ p → s'.pds q = s.pds q
  page : (s'.pds p).pfn = -1 ∧ (s'.pds p).valid = false ∧ (s'.pds p).vaddr = (s.pds p).vaddr ∧
    (s'.pds p).dirty = (s.pds p).dirty
  mem : s'.mem = s.mem
  tlb : s.tlb.Shrinks s'.tlb

theorem evicted_evicts {tlb : Tlb} {swap : Swap} {sfn : Int} (ht : s.tlb.Shrinks tlb) :
    Evicts s (evicted s f p tlb swap sfn) f p := by
  refine ⟨⟨rfl, rfl, rfl⟩, fun g => ?_, fun g => ?_, fun g => ?_, fun g => ?_, fun q hq => ?_, ?_, rfl, ht⟩
  · simp only [evicted, Cm.modify_coreDetails]; split <;> simp_all
  · simp only [evicted, Cm.modify_coreDetails]; split <;> simp_all
  · simp only [evicted, Cm.modify_coreDetails]; split <;> simp_all
  · simp only [evicted, Cm.modify_coreDetails]; split <;> simp_all
  · rw [evicted_pds, if_neg hq]
  · rw [evicted_pds, if_pos rfl]; exact ⟨rfl, rfl, rfl, rfl⟩

theorem evicted_tlb_ok {o : Owner} {tlb : Tlb} {swap : Swap} {sfn : Int} {m : Nat → Option (PdPtr × Bool)}
    (h : TlbOk live m own s) (hu : own f = .user p) (hinv : tlbInvalidateVaddr s.tlb (s.pds p).vaddr = .ok tlb)
    (hal : (s.pds p).vaddr &&& pageFrame = (s.pds p).vaddr) :
    TlbOk live m (Function.update own f o) (evicted s f p tlb swap sfn) := by
  obtain ⟨hold, hmiss⟩ := tlbInvalidateVaddr_keeps h hinv hal
  refine ⟨fun k hk hv => ?_, hold.uniq, hold.blank, fun v q w hm => ?_⟩
  · obtain ⟨hlt, q, w, g, hm, hg, hq, hpp, hd⟩ := hold.entry k hk hv
    refine ⟨hlt, q, w, g, hm, hg, ?_, hpp, hd⟩
    by_cases hgf : g = f
    · subst hgf
      obtain rfl : q = p := Owner.user.inj (hq.symm.trans hu)
      exact absurd (hold.view _ _ _ hm).2.symm (hmiss k hk hv)
    · rw [Function.update_of_ne hgf]; exact hq
  · obtain ⟨hl, hva⟩ := h.view v q w hm
    refine ⟨hl, ?_⟩
    rw [evicted_pds]
    split
    · subst_vars; rfl
    · exact hva

theorem Good.congr {G : Ghost} {own' : Nat → Owner} {fl' : List Nat} {s' : Vm} (h : Good G own fl s)
    (hcm : CmOk own' fl' s'.cm) (hr : ∀ f, s'.cm.InRange f ↔ s.cm.InRange f)
    (hu : ∀ f p, own' f = .user p ↔ own f = .user p)
    (hpd : ∀ f, (s'.cm.coreDetails f).pd = (s.cm.coreDetails f).pd)
    (hd : ∀ q, G.live q → SameDetail (s.pds q) (s'.pds q))
    (hm : ∀ f p, s.cm.InRange f → own f = .user p → s'.mem f = s.mem f) (hw : s'.swap = s.swap)
    (ht : ∀ m, G.view = some m → TlbOk G.live m own' s') : Good G own' fl' s' := by
  obtain ⟨sl, hc⟩ := h.core
  refine ⟨⟨sl, hcm, hc.pg.congr hr hu hpd hd, ?_⟩, ht, h.data.congr hr hu hm (by rw [hw]) hd, fun q hq => ?_⟩
  rotate_left
  · rw [hd q hq]; exact h.fixed q hq
  refine hc.sw.congr (by rw [hw]) (by rw [hw]) (by rw [hw]) (fun q hq => Or.inr ⟨hq, ?_, ?_⟩) fun q hq =>
    Or.inr ⟨hq, ?_⟩ <;> rw [hd q hq]

section
variable {G : Ghost} {o : Owner} {tlb : Tlb}

theorem evicted_fixed {swap : Swap} {sfn : Int} (h : Good G own fl s) (q : PdPtr) (hq : G.live q) :
    ((evicted s f p tlb swap sfn).pds q).vaddr = G.vaddr q ∧
    ((evicted s f p tlb swap sfn).pds q).dirty = G.dirty q := by
  rw [evicted_pds]
  split
  · subst_vars; exact h.fixed _ hq
  · exact h.fixed q hq

theorem evicted_data_resident {swap : Swap} {sfn : Int} (h : DataOk G own s) (ho : o.Held) (q : PdPtr) (x : Page)
    (g : Nat) (hl : G.live q) (hx : G.abs q = some x) (hg : s.cm.InRange g)
    (hq : Function.update own f o g = .user q) : SamePage ((evicted s f p tlb swap sfn).mem g) x := by
  have hgf : g ≠ f := by
    rintro rfl
    rw [Function.update_self] at hq
    exact ho.ne_user q hq
  rw [Function.update_of_ne hgf] at hq
  exact h.resident q x g hl hx hg hq

theorem evicted_file {swap : Swap} {sfn : Int} (h : DataOk G own s) (hu : own f = .user p) (hqp : q ≠ p) {x : Page}
    (hl : G.live q) (hx : G.abs q = some x)
    (hc : ((evicted s f p tlb swap sfn).pds q).dirty = false ∨
      ((∀ g, s.cm.InRange g → Function.update own f o g ≠ .user q) ∧
        ((evicted s f p tlb swap sfn).pds q).sfn = -1)) : SamePage (G.img q) x := by
  rw [evicted_pds, if_neg hqp] at hc
  refine h.file q x hl hx (hc.imp_right fun ⟨hno, hs⟩ => ⟨fun g hg e => ?_, hs⟩)
  by_cases hgf : g = f
  · rw [hgf, hu] at e
    exact hqp (Owner.user.inj e).symm
  · exact hno g hg (by rw [Function.update_of_ne hgf]; exact e)

theorem evicted_data_clean (h : DataOk G own s) (hu : own f = .user p) (ho : o.Held)
    (hd : (s.pds p).dirty = false) :
    DataOk G (Function.update own f o) (evicted s f p tlb s.swap (-1)) := by
  refine ⟨fun q x g hl hx hg hq => evicted_data_resident h ho q x g hl hx hg hq, fun q x n hl hx hn => ?_,
    fun q x hl hx hc => ?_⟩
  · have hqp : q ≠ p := by
      rintro rfl
      rw [evicted_pds, if_pos rfl] at hn
      exact absurd hn (by simp only; omega)
    rw [evicted_pds, if_neg hqp] at hn
    exact h.swapped q x n hl hx hn
  · by_cases hqp : q = p
    · subst hqp
      exact h.file q x hl hx (Or.inl hd)
    · exact evicted_file h hu hqp hl hx hc

theorem evicted_data_dirty {node : Nat} (hc : Core G.live own fl (node :: sl) s) (h : DataOk G own s)
    (hr : s.cm.InRange f) (hu : own f = .user p) (ho : o.Held) (hd : (s.pds p).dirty = true) :
    DataOk G (Function.update own f o)
      (evicted s f p tlb (swappedOut s.swap node (s.mem (s.cm.coreDetails f).id)) (s.swap.index node)) := by
  have hnode := hc.sw.lt node (List.mem_cons_self ..)
  rw [hc.cm.id_eq f hr, hc.sw.index node hnode]
  refine ⟨fun q x g hl hx hg hq => evicted_data_resident h ho q x g hl hx hg hq, fun q x n hl hx hn => ?_,
    fun q x hl hx hcase => ?_⟩
  · simp only [evicted_swap, swappedOut, hc.sw.index node hnode, Function.update_apply]
    by_cases hqp : q = p
    · subst hqp
      rw [evicted_pds, if_pos rfl] at hn
      rw [if_pos (by simp only at hn; omega)]
      exact h.resident q x f hl hx hr hu
    · rw [evicted_pds, if_neg hqp] at hn
      rw [if_neg ?_]
      · exact h.swapped q x n hl hx hn
      · rintro rfl
        exact hc.sw.free_ne hl (List.mem_cons_self ..) hn
  · by_cases hqp : q = p
    · subst hqp
      simp only [evicted_pds, if_true, hd] at hcase
      rcases hcase with hcase | ⟨-, hcase⟩
      · cases hcase
      · omega
    · exact evicted_file h hu hqp hl hx hcase

end

theorem cmFreeCore_good {G : Ghost} {o : Owner} (ho : o.Held) (h : Good G own fl s) (hr : s.cm.InRange f)
    (hu : own f = .user p) :
    Post (cmFreeCore s f)
      (fun s' => Good G (Function.update own f o) fl s' ∧ Evicts s s' f p)
      (fun c => c.why = .outOfSwapSpace ∧ SwapFull G.live c.vm) := by
  obtain ⟨sl, hc⟩ := h.core
  obtain ⟨hl, hpd, hpfn, hval⟩ := hc.pg.user f p hr hu
  have hal := hc.pg.aligned p hl
  obtain ⟨tlb, htlb, hcase⟩ := cmFreeCore_cases hpd hal
  have hsh := tlbInvalidateVaddr_shrinks hal htlb
  obtain ⟨hd, he⟩ | ⟨hd, node, hn, he⟩ | ⟨-, hn, he⟩ := hcase
  · rw [he]
    refine ⟨⟨⟨sl, ?_⟩, fun m hm => evicted_tlb_ok (h.tlb m hm) hu htlb hal, evicted_data_clean h.data hu ho hd,
      evicted_fixed h⟩, evicted_evicts hsh⟩
    exact ⟨evicted_cm hc.cm hr hu ho, evicted_pg hc.pg hr hu ho, evicted_sw_clean hc hr hu⟩
  · rw [he]
    have hsl := hc.sw.chain.head_eq
    rw [hn] at hsl
    cases sl with
    | nil => cases hsl
    | cons n sl =>
      obtain rfl : node = n := Option.some.inj hsl
      refine ⟨⟨⟨sl, ?_⟩, fun m hm => evicted_tlb_ok (h.tlb m hm) hu htlb hal, evicted_data_dirty hc h.data hr hu ho hd,
        evicted_fixed h⟩, evicted_evicts hsh⟩
      exact ⟨evicted_cm hc.cm hr hu ho, evicted_pg hc.pg hr hu ho, evicted_sw_dirty hc hr hu⟩
  · rw [he]
    have hsl : sl = [] := (hc.sw.chain.none_iff).mp hn
    refine ⟨rfl, fun n hn' => ?_⟩
    rcases hc.sw.cover n hn' with hm | ⟨q, hq, hqs⟩
    · rw [hsl] at hm; cases hm
    · have hqp : q ≠ p := by
        rintro rfl
        rw [hc.user_sfn hr hu] at hqs; omega
      exact ⟨q, hq, by rw [Vm.modifyPd_of_ne hqp]; exact hqs⟩

end Os161
