import Os161.RoundSound

/-!
# Copying an address space

The loops of `as_copy` over the segments and over the pages of a segment.
If the copy gets through, the child joins the system with a copy of each page.
-/

namespace Os161

open Linked Outcome

variable {G G' G₁ G₂ : Ghost} {own own' : Nat → Owner} {runs runs₀ : List (Nat × Nat)} {v v' : Vm} {p q r : PdPtr}
  {old new : AddrSpace} {file : List UInt8} {args : CopyArgs} {l l₁ l₂ : List (PdPtr × PdPtr)} {P Q : PdPtr → Prop}

/-! ## Ghosts with copies -/

theorem Ghost.Adds.refl (G : Ghost) : G.Adds G fun _ => False :=
  ⟨fun _ => ⟨Or.inl, fun h => h.resolve_right id⟩, rfl, fun _ _ => rfl, fun _ _ => rfl, fun _ _ => rfl, fun _ _ => rfl⟩

theorem Ghost.Adds.trans (h : G.Adds G₁ P) (h' : G₁.Adds G₂ Q) : G.Adds G₂ fun q => P q ∨ Q q := by
  have hl : ∀ q, G.live q → G₁.live q := fun q hq => (h.live q).mpr (Or.inl hq)
  exact ⟨fun q => by rw [h'.live, h.live, or_assoc], h'.view.trans h.view,
    fun q hq => (h'.abs q (hl q hq)).trans (h.abs q hq), fun q hq => (h'.img q (hl q hq)).trans (h.img q hq),
    fun q hq => (h'.vaddr q (hl q hq)).trans (h.vaddr q hq), fun q hq => (h'.dirty q (hl q hq)).trans (h.dirty q hq)⟩

theorem Ghost.Adds.congr (h : G.Adds G₁ P) (hP : ∀ q, P q ↔ Q q) : G.Adds G₁ Q :=
  ⟨fun q => by rw [h.live, hP], h.view, h.abs, h.img, h.vaddr, h.dirty⟩

structure Forked (G G' : Ghost) (old : AddrSpace) (l : List (PdPtr × PdPtr)) : Prop where
  adds : G.Adds G' fun p => ∃ q, (q, p) ∈ l
  rest : ∀ p, (∀ q, (q, p) ∉ l) → G'.abs p = G.abs p
  page : ∀ q p, (q, p) ∈ l → G'.abs p = copied old G.abs (G.dirty q) q (G.vaddr q) ∧
    G'.img p = G.img q ∧ G'.vaddr p = G.vaddr q ∧ G'.dirty p = G.dirty q

theorem Forked.nil (G : Ghost) (old : AddrSpace) : Forked G G old [] :=
  ⟨(Ghost.Adds.refl G).congr fun _ => by simp, fun _ _ => rfl, fun _ _ h => absurd h List.not_mem_nil⟩

theorem Forked.one (hp : ¬ G.live p) : Forked G (G.fork old q p) old [(q, p)] := by
  refine ⟨(Ghost.fork_adds hp).congr fun r => by simp, fun r hr => ?_, fun q' p' h => ?_⟩
  · exact Function.update_of_ne (by rintro rfl; exact hr q (by simp)) ..
  · obtain ⟨rfl, rfl⟩ : q' = q ∧ p' = p := by simpa using h
    simp [Ghost.fork]

theorem copied_adds (hf : Forkable G old file) (h : G.Adds G' P) (hq : G.live q) :
    copied old G'.abs (G'.dirty q) q (G'.vaddr q) = copied old G.abs (G.dirty q) q (G.vaddr q) := by
  unfold copied
  rw [h.dirty q hq, h.vaddr q hq, h.abs q hq]
  congr 1
  cases hv : old.view (G.vaddr q) with
  | none => rfl
  | some rw =>
    obtain ⟨i, -, hi, -⟩ := view_has hf.ok hv
    exact h.abs _ (hf.live _ (mem_pages.mpr ⟨i, hi⟩))

theorem Forked.append (hf : Forkable G old file) (h₁ : Forked G G₁ old l₁) (h₂ : Forked G₁ G₂ old l₂)
    (hl : ∀ q p, (q, p) ∈ l₂ → G.live q) : Forked G G₂ old (l₁ ++ l₂) := by
  refine ⟨(h₁.adds.trans h₂.adds).congr fun r => by simp only [List.mem_append, exists_or], fun r hr => ?_,
    fun q p hm => ?_⟩
  · rw [h₂.rest r fun q hm => hr q (List.mem_append_right _ hm), h₁.rest r fun q hm => hr q (List.mem_append_left _ hm)]
  · rcases List.mem_append.mp hm with hm | hm
    · have hp : G₁.live p := (h₁.adds.live p).mpr (Or.inr ⟨q, hm⟩)
      rw [h₂.adds.abs p hp, h₂.adds.img p hp, h₂.adds.vaddr p hp, h₂.adds.dirty p hp]
      exact h₁.page q p hm
    · have hq := hl q p hm
      obtain ⟨ha, hi, hv, hd⟩ := h₂.page q p hm
      rw [copied_adds hf h₁.adds hq] at ha
      exact ⟨ha, hi.trans (h₁.adds.img q hq), hv.trans (h₁.adds.vaddr q hq), hd.trans (h₁.adds.dirty q hq)⟩

theorem copied_none {abs : PdPtr → Option Page} (ha : ∀ r, abs r = none) (d : Bool) (x : Nat) :
    copied old abs d q x = none := by
  unfold copied
  split
  · cases old.view x with
    | none => rfl
    | some r => exact ha _
  · exact ha _

theorem Forked.abs_none (h : Forked G G' old l) (ha : ∀ r, G.abs r = none) (r : PdPtr) : G'.abs r = none := by
  by_cases hr : ∃ q, (q, r) ∈ l
  · obtain ⟨q, hq⟩ := hr
    rw [(h.page q r hq).1]
    exact copied_none ha ..
  · rw [h.rest r fun q hq => hr ⟨q, hq⟩]
    exact ha r

theorem Forked.known (h : Forked G G' old l) (hr : ∃ r, G'.abs r ≠ none) : ∃ r, G.abs r ≠ none := by
  by_contra hno
  obtain ⟨r, hr⟩ := hr
  exact hr (h.abs_none (fun r => not_not.mp fun e => hno ⟨r, e⟩) r)

theorem Forkable.forked (hf : Forkable G old file) (h : Forked G G' old l) : Forkable G' old file := by
  have hlive : ∀ i r, old.Has i r → G.live r := fun i r hr => hf.live r (mem_pages.mpr ⟨i, hr⟩)
  refine ⟨hf.ok, fun r hr => (h.adds.live r).mpr (Or.inl (hf.live r hr)), fun i r hr => ?_, fun m hm => ?_, fun e => ?_⟩
  · have hl := hlive i r hr
    rw [h.adds.vaddr r hl, h.adds.dirty r hl, h.adds.img r hl]
    exact hf.page i r hr
  · exact hf.view m (h.adds.view ▸ hm)
  · exact h.abs_none (hf.known (h.adds.view ▸ e))

/-! ## The pages of a segment -/

theorem NoSlotLeft.mono {live live' : PdPtr → Prop} {c : Crash} (h : NoSlotLeft live c) (hl : ∀ p, live p → live' p) :
    NoSlotLeft live' c := fun e => (h e).mono hl

theorem copyPages_good {resid : Nat → Nat} (hi : Idle G own runs v) (hf : Forkable G old file)
    (hn : ∀ q p, (q, p) ∈ l → NewPage G v q p) (hnd : (l.map Prod.snd).Nodup)
    (hload : (∃ r, G.abs r ≠ none) → ∀ q p, (q, p) ∈ l → LoadGood old file (G.vaddr q) (resid p.idx)) :
    Post (copyPages true old file resid l v)
      (fun v' => ∃ G' own', Forked G G' old l ∧ Idle G' own' runs v')
      (NoSlotLeft fun r => G.live r ∨ ∃ q, (q, r) ∈ l) := by
  induction l generalizing G own v with
  | nil => exact ⟨G, own, Forked.nil G old, hi⟩
  | cons a l ih =>
    obtain ⟨q, p⟩ := a
    obtain ⟨hp, hnd⟩ := List.nodup_cons.mp hnd
    have hqp := hn q p (List.mem_cons_self ..)
    have hone : Forked G (G.fork old q p) old [(q, p)] := Forked.one hqp.new
    refine ((copyPage_good hi hf hqp fun hr => hload hr q p (List.mem_cons_self ..)).mono (fun _ h => h) fun c hc =>
      hc.mono fun _ => Or.inl).bind fun v₁ _ hr => ?_
    · obtain ⟨own₁, hi₁, hpo⟩ := hr
      have hlive : ∀ q' p', (q', p') ∈ l → G.live q' := fun q' p' hm => (hn q' p' (List.mem_cons_of_mem _ hm)).old
      have hvaddr : ∀ q' p', (q', p') ∈ l → (G.fork old q p).vaddr q' = G.vaddr q' := fun q' p' hm =>
        hone.adds.vaddr q' (hlive q' p' hm)
      -- the details of the pages still to come have not changed
      have hn₁ : ∀ q' p', (q', p') ∈ l → NewPage (G.fork old q p) v₁ q' p' := by
        intro q' p' hm
        have h' := hn q' p' (List.mem_cons_of_mem _ hm)
        have hdead : ¬ (G.fork old q p).live p' := by
          rintro (hl | rfl)
          · exact h'.new hl
          · exact hp (List.mem_map.mpr ⟨_, hm, rfl⟩)
        have hsame := hpo.other p' hdead
        refine ⟨Or.inl h'.old, hdead, ?_, ?_, ?_⟩
        · rw [hsame]; exact h'.sfn
        · rw [hsame, hvaddr q' p' hm]; exact h'.vaddr
        · rw [hsame, hone.adds.dirty q' h'.old]; exact h'.dirty
      refine (ih hi₁ (hf.forked hone) hn₁ hnd fun hr q' p' hm => ?_).mono ?_ fun c hc => hc.mono ?_
      · rw [hvaddr q' p' hm]
        exact hload (hone.known hr) q' p' (List.mem_cons_of_mem _ hm)
      · rintro v' ⟨G', own', hforked, hi'⟩
        exact ⟨G', own', hone.append hf hforked hlive, hi'⟩
      · rintro r ((hl | rfl) | ⟨q', hm⟩)
        · exact Or.inl hl
        · exact Or.inr ⟨q, List.mem_cons_self ..⟩
        · exact Or.inr ⟨q', List.mem_cons_of_mem _ hm⟩

/-! ## The segments -/

theorem kmallocPages_good {l : List Nat} (h : Idle G own runs v) (hl : ∀ n ∈ l, 1 ≤ n) :
    Post (kmallocPages l v) (fun r => ∃ own', Idle G own' (runs ++ r.1) r.2) (NoSlotLeft G.live) := by
  induction l generalizing own runs v with
  | nil => exact ⟨own, by rw [List.append_nil]; exact h⟩
  | cons n l ih =>
    refine ((allocKpages_good h (hl n (List.mem_cons_self ..))).mono (fun _ h => h) fun c hc => ?_).bind ?_
    · rcases hc with ⟨-, hfull⟩ | hw
      · exact fun _ => hfull
      · exact .of_ne (by rw [hw]; simp)
    rintro ⟨addr, v₁⟩ - ⟨h₁, -⟩
    refine (ih h₁ fun m hm => hl m (List.mem_cons_of_mem _ hm)).bind ?_
    rintro ⟨rs, v₂⟩ - ⟨own', h₂⟩
    rw [List.append_assoc] at h₂
    exact ⟨own', h₂⟩

def segmentPairs (old : AddrSpace) (args : CopyArgs) (i : Nat) : List (PdPtr × PdPtr) :=
  match (old.segments i).pt with
  | none => []
  | some opt => (List.range (old.segments i).size).map fun j =>
    ({ block := opt.block, idx := j }, { block := args.blocks i, idx := j })

def copyPairs (old : AddrSpace) (args : CopyArgs) (is : List Nat) : List (PdPtr × PdPtr) :=
  is.flatMap fun i => if (old.segments i).active ≠ 0 then segmentPairs old args i else []

theorem mem_segmentPairs {i : Nat} (hs : SegOk (old.segments i)) (hi : i < asNumSeg) :
    (q, p) ∈ segmentPairs old args i ↔ old.Has i q ∧ p = { block := args.blocks i, idx := q.idx } := by
  obtain ⟨block, hpt⟩ := hs.pt
  unfold segmentPairs
  rw [hpt]
  simp only [List.mem_map, List.mem_range, Prod.mk.injEq]
  constructor
  · rintro ⟨j, hj, rfl, rfl⟩
    exact ⟨⟨hi, by rw [hs.active]; decide, _, hpt, rfl, hj⟩, rfl⟩
  · rintro ⟨h, rfl⟩
    obtain ⟨pt, hpt', hb, hj⟩ := h.table
    obtain rfl := Option.some.inj (hpt.symm.trans hpt')
    exact ⟨q.idx, hj, by rw [show block = q.block from hb.symm], rfl⟩

theorem mem_copyPairs {is : List Nat} (hs : SpaceOk old) (hi : ∀ i ∈ is, i < asNumSeg) :
    (q, p) ∈ copyPairs old args is ↔ ∃ i ∈ is, old.Has i q ∧ p = { block := args.blocks i, idx := q.idx } := by
  simp only [copyPairs, List.mem_flatMap]
  refine exists_congr fun i => and_congr_right fun hm => ?_
  split
  · rename_i ha
    exact mem_segmentPairs ((hs i (hi i hm)).resolve_left ha) (hi i hm)
  · rename_i ha
    exact ⟨fun h => absurd h List.not_mem_nil, fun h => absurd h.1.active ha⟩

theorem segmentPairs_nodup (old : AddrSpace) (args : CopyArgs) (i : Nat) :
    ((segmentPairs old args i).map Prod.snd).Nodup := by
  unfold segmentPairs
  cases (old.segments i).pt with
  | none => exact List.nodup_nil
  | some opt =>
    rw [List.map_map]
    exact List.nodup_range.map fun j k e => congrArg PdPtr.idx e

def childSegment (old : AddrSpace) (args : CopyArgs) (i : Nat) : Segment :=
  { old.segments i with active := 1, pt := some { size := (old.segments i).size, block := args.blocks i } }

def LoadsGood (old : AddrSpace) (file : List UInt8) (args : CopyArgs) : Prop :=
  ∀ i p, old.Has i p → LoadGood old file (ptEntry (old.segments i) p.idx).vaddr (args.resid i p.idx)

theorem copySegment_eq {i : Nat} (hs : SegOk (old.segments i)) :
    copySegment true old file args i new runs v = (kmallocPages (args.ptPages i) v >>= fun r =>
      copyPages true old file (args.resid i) (segmentPairs old args i)
        { r.2 with pds := (ptCreate r.2.pds (old.segments i) (args.blocks i)).2 } >>= fun v' =>
      .ok (new.setSegment i (childSegment old args i), runs ++ r.1, v')) := by
  obtain ⟨block, hpt⟩ := hs.pt
  have ha : (old.segments i).active ≠ 0 := by rw [hs.active]; decide
  simp only [copySegment, ha, ne_eq, not_false_eq_true, if_true, segmentPairs, hpt, ptCreate]
  rfl

theorem copySegment_good {i : Nat} (h3 : i < asNumSeg) (hi : Idle G own (runs₀ ++ runs) v) (hf : Forkable G old file)
    (hdead : ∀ r, r.block = args.blocks i → ¬ G.live r) (hreq : ∀ n ∈ args.ptPages i, 1 ≤ n)
    (hload : (∃ r, G.abs r ≠ none) → LoadsGood old file args) :
    Post (copySegment true old file args i new runs v)
      (fun r =>
        r.1 = (if (old.segments i).active ≠ 0 then new.setSegment i (childSegment old args i) else new) ∧
        ∃ G' own', Forked G G' old (copyPairs old args [i]) ∧ Idle G' own' (runs₀ ++ r.2.1) r.2.2)
      (NoSlotLeft fun r => G.live r ∨ ∃ q, (q, r) ∈ copyPairs old args [i]) := by
  rcases hf.ok i h3 with ha | hs
  · have hpairs : copyPairs old args [i] = [] := by simp [copyPairs, ha]
    simp only [copySegment, ha, ne_eq, not_true_eq_false, if_false, hpairs]
    exact ⟨rfl, G, own, Forked.nil G old, hi⟩
  · have ha : (old.segments i).active ≠ 0 := by rw [hs.active]; decide
    have hpairs : copyPairs old args [i] = segmentPairs old args i := by simp [copyPairs, ha]
    rw [copySegment_eq hs, hpairs, if_pos ha]
    refine ((kmallocPages_good hi hreq).mono (fun _ h => h) fun c hc => hc.mono fun _ => Or.inl).bind ?_
    rintro ⟨rs, v₁⟩ - ⟨own₁, hi₁⟩
    dsimp only at hi₁ ⊢
    -- the page table is set up in a block with no live page
    obtain ⟨fl, hg⟩ := hi₁.good
    have hi₂ : Idle G own₁ (runs₀ ++ runs ++ rs)
        { v₁ with pds := (ptCreate v₁.pds (old.segments i) (args.blocks i)).2 } := by
      refine ⟨⟨fl, hg.setPds _ fun r hr => if_neg fun hb => hdead r hb.1 hr⟩, hi₁.kern, hi₁.calm, hi₁.runs⟩
    have hnew : ∀ q p, (q, p) ∈ segmentPairs old args i →
        NewPage G { v₁ with pds := (ptCreate v₁.pds (old.segments i) (args.blocks i)).2 } q p := by
      intro q p hm
      obtain ⟨hq, rfl⟩ := (mem_segmentPairs hs h3).mp hm
      obtain ⟨hva, hdi, -⟩ := hf.page i q hq
      have hidx : q.idx < (old.segments i).size := by
        obtain ⟨pt, hpt, -, hj⟩ := hq.table
        obtain ⟨block, hpt'⟩ := hs.pt
        obtain rfl := Option.some.inj (hpt.symm.trans hpt')
        exact hj
      refine ⟨hf.live q (mem_pages.mpr ⟨i, hq⟩), hdead _ rfl, ?_, ?_, ?_⟩
      · simp [ptCreate, hidx, ptEntry]
      · simp [ptCreate, hidx, hva]
      · simp [ptCreate, hidx, hdi, ptEntry]
    have hgood : LoadsGood old file args → ∀ q p, (q, p) ∈ segmentPairs old args i →
        LoadGood old file (G.vaddr q) (args.resid i p.idx) := by
      intro hl q p hm
      obtain ⟨hq, rfl⟩ := (mem_segmentPairs hs h3).mp hm
      rw [(hf.page i q hq).1]
      exact hl i q hq
    refine ((copyPages_good hi₂ hf hnew (segmentPairs_nodup old args i) fun hr => hgood (hload hr)).mono (fun _ h => h)
      fun c hc => hc).bind ?_
    rintro v' - ⟨G', own', hforked, hi'⟩
    refine ⟨rfl, G', own', hforked, ?_⟩
    rw [List.append_assoc] at hi'
    exact hi'

theorem copySegments_good {is : List Nat} (hlt : ∀ i ∈ is, i < asNumSeg) (hnd : is.Nodup)
    (hi : Idle G own (runs₀ ++ runs) v) (hf : Forkable G old file)
    (hinj : ∀ i ∈ is, ∀ j ∈ is, args.blocks i = args.blocks j → i = j)
    (hdead : ∀ i ∈ is, ∀ r, r.block = args.blocks i → ¬ G.live r) (hreq : ∀ i ∈ is, ∀ n ∈ args.ptPages i, 1 ≤ n)
    (hload : (∃ r, G.abs r ≠ none) → LoadsGood old file args) :
    Post (copySegments true old file args is new runs v)
      (fun r =>
        r.1 = { new with segments := fun i => if i ∈ is ∧ (old.segments i).active ≠ 0 then childSegment old args i
          else new.segments i } ∧
        ∃ G' own', Forked G G' old (copyPairs old args is) ∧ Idle G' own' (runs₀ ++ r.2.1) r.2.2)
      (NoSlotLeft fun r => G.live r ∨ ∃ q, (q, r) ∈ copyPairs old args is) := by
  induction is generalizing G own runs v new with
  | nil => exact ⟨by simp, G, own, Forked.nil G old, hi⟩
  | cons i is ih =>
    obtain ⟨hi_is, hnd⟩ := List.nodup_cons.mp hnd
    have hsub : ∀ j ∈ is, j ∈ i :: is := fun j hj => List.mem_cons_of_mem _ hj
    have hhead : i ∈ i :: is := List.mem_cons_self ..
    have hcons : copyPairs old args (i :: is) = copyPairs old args [i] ++ copyPairs old args is := by simp [copyPairs]
    refine ((copySegment_good (hlt i hhead) hi hf (hdead i hhead) (hreq i hhead) hload).mono (fun _ h => h)
      fun c hc => hc.mono ?_).bind ?_
    · rintro r (hl | ⟨q, hm⟩)
      · exact Or.inl hl
      · exact Or.inr ⟨q, by rw [hcons]; exact List.mem_append_left _ hm⟩
    rintro ⟨new₁, runs₁, v₁⟩ - ⟨hnew, G₁, own₁, hforked, hi₁⟩
    dsimp only at hnew hi₁ ⊢
    -- the blocks of the segments to come have no live page yet
    have hblock : ∀ q p, (q, p) ∈ copyPairs old args [i] → p.block = args.blocks i := by
      intro q p hm
      obtain ⟨j, hj, -, rfl⟩ := (mem_copyPairs hf.ok fun j hj => by
        rw [List.mem_singleton.mp hj]; exact hlt i hhead).mp hm
      rw [List.mem_singleton.mp hj]
    have hdead₁ : ∀ j ∈ is, ∀ r, r.block = args.blocks j → ¬ G₁.live r := by
      intro j hj r hb hl
      rcases (hforked.adds.live r).mp hl with hl | ⟨q, hm⟩
      · exact hdead j (hsub j hj) r hb hl
      · obtain rfl := hinj i hhead j (hsub j hj) ((hblock q r hm).symm.trans hb)
        exact hi_is hj
    refine (ih (fun j hj => hlt j (hsub j hj)) hnd hi₁ (hf.forked hforked)
      (fun j hj k hk => hinj j (hsub j hj) k (hsub k hk)) hdead₁ (fun j hj => hreq j (hsub j hj))
      fun hr => hload (hforked.known hr)).mono ?_ fun c hc => hc.mono ?_
    · rintro ⟨new', runs', v'⟩ ⟨hnew', G', own', hforked', hi'⟩
      refine ⟨?_, G', own', ?_, hi'⟩
      · rw [hnew', hnew]
        by_cases ha : (old.segments i).active = 0
        · simp only [ha, ne_eq, not_true_eq_false, if_false, AddrSpace.mk.injEq, and_self, and_true]
          funext j
          rcases eq_or_ne j i with rfl | hj
          · simp [ha]
          · simp [hj]
        · simp only [ha, ne_eq, not_false_eq_true, if_true, AddrSpace.setSegment, AddrSpace.mk.injEq,
            and_self, and_true]
          funext j
          rcases eq_or_ne j i with rfl | hj
          · simp [ha]
          · simp [hj]
      · rw [hcons]
        refine hforked.append hf hforked' fun q p hm => ?_
        obtain ⟨j, hj, hq, -⟩ := (mem_copyPairs hf.ok fun j hj => hlt j (hsub j hj)).mp hm
        exact hf.live q (mem_pages.mpr ⟨j, hq⟩)
    · rw [hcons]
      rintro r (hl | ⟨q, hm⟩)
      · rcases (hforked.adds.live r).mp hl with hl | ⟨q, hm⟩
        · exact Or.inl hl
        · exact Or.inr ⟨q, List.mem_append_left _ hm⟩
      · exact Or.inr ⟨q, List.mem_append_right _ hm⟩

/-! ## The child in the system -/

def childSpace (old : AddrSpace) (args : CopyArgs) : AddrSpace where
  segments i := if i < asNumSeg ∧ (old.segments i).active ≠ 0 then childSegment old args i
    else (asCreate args.last).segments i
  file := old.file
  numSegments := old.numSegments

variable {i : Nat}

theorem childSpace_active (h3 : i < asNumSeg) (ha : (old.segments i).active ≠ 0) :
    (childSpace old args).segments i = childSegment old args i := if_pos ⟨h3, ha⟩

theorem childSpace_inactive (hstack : (old.segments (asNumSeg - 1)).active ≠ 0) (h3 : i < asNumSeg)
    (ha : (old.segments i).active = 0) : (childSpace old args).segments i = emptySegment := by
  have hi : i < asNumSeg - 1 := by
    have : i ≠ asNumSeg - 1 := by rintro rfl; exact hstack ha
    omega
  simp [childSpace, ha, asCreate, hi]

theorem childSpace_has (hs : SpaceOk old) (hstack : (old.segments (asNumSeg - 1)).active ≠ 0) :
    (childSpace old args).Has i p ↔ ∃ q, old.Has i q ∧ p = { block := args.blocks i, idx := q.idx } := by
  constructor
  · intro h
    have ha : (old.segments i).active ≠ 0 := fun ha => by
      have := h.active
      rw [childSpace_inactive hstack h.lt ha] at this
      exact this rfl
    obtain ⟨block, hpt⟩ := ((hs i h.lt).resolve_left ha).pt
    obtain ⟨pt, hpt', hb, hj⟩ := h.table
    rw [childSpace_active h.lt ha] at hpt'
    obtain rfl := Option.some.inj hpt'
    exact ⟨{ block := block, idx := p.idx }, ⟨h.lt, ha, _, hpt, rfl, hj⟩,
      by rw [show args.blocks i = p.block from hb.symm]⟩
  · rintro ⟨q, hq, rfl⟩
    obtain ⟨block, hpt⟩ := ((hs i hq.lt).resolve_left hq.active).pt
    obtain ⟨pt, hpt', hb, hj⟩ := hq.table
    obtain rfl := Option.some.inj (hpt.symm.trans hpt')
    have hseg : (childSpace old args).segments i = childSegment old args i := childSpace_active hq.lt hq.active
    exact ⟨hq.lt, by rw [hseg]; exact Int.one_ne_zero,
      { size := _, block := args.blocks i }, by rw [hseg]; rfl, rfl, hj⟩

theorem mem_childSpace_pages (hs : SpaceOk old) (hstack : (old.segments (asNumSeg - 1)).active ≠ 0) :
    (∃ q, (q, p) ∈ copyPairs old args (List.range asNumSeg)) ↔ p ∈ (childSpace old args).pages := by
  simp only [mem_pages, childSpace_has hs hstack, mem_copyPairs hs fun i => List.mem_range.mp, List.mem_range]
  exact ⟨fun ⟨q, i, _, hq, e⟩ => ⟨i, q, hq, e⟩, fun ⟨i, q, hq, e⟩ => ⟨q, i, hq.lt, hq, e⟩⟩

theorem childSpace_ok (hs : SpaceOk old) (hstack : (old.segments (asNumSeg - 1)).active ≠ 0) :
    SpaceOk (childSpace old args) := by
  intro i h3
  rcases hs i h3 with ha | hok
  · left
    rw [childSpace_inactive hstack h3 ha]
    rfl
  · right
    rw [childSpace_active h3 (by rw [hok.active]; decide)]
    exact ⟨rfl, ⟨args.blocks i, rfl⟩, hok.base, hok.lt, hok.size⟩

theorem childSpace_table (hstack : (old.segments (asNumSeg - 1)).active ≠ 0) {pt : PageTable}
    (h : (childSpace old args).Table i pt) : pt.block = args.blocks i := by
  have ha : (old.segments i).active ≠ 0 := fun ha => by
    have := h.active
    rw [childSpace_inactive hstack h.lt ha] at this
    exact this rfl
  have := h.eq
  rw [childSpace_active h.lt ha] at this
  rw [← Option.some.inj this]

theorem childSpace_lookup (hs : SpaceOk old) (hstack : (old.segments (asNumSeg - 1)).active ≠ 0) (x : Nat) :
    asGetSegment (childSpace old args) x = asGetSegment old x ∧
      asValidAddr (childSpace old args) x = asValidAddr old x := by
  have hseg : ∀ i < asNumSeg, (((childSpace old args).segments i).active == 1) = ((old.segments i).active == 1) ∧
      (((childSpace old args).segments i).active != 0) = ((old.segments i).active != 0) ∧ ((old.segments i).active ≠ 0 →
        ((childSpace old args).segments i).vbase = (old.segments i).vbase ∧
        ((childSpace old args).segments i).size = (old.segments i).size) := by
    intro i h3
    rcases hs i h3 with ha | hok
    · rw [childSpace_inactive hstack h3 ha, ha]
      exact ⟨rfl, rfl, fun h => absurd rfl h⟩
    · have ha : (old.segments i).active ≠ 0 := by rw [hok.active]; decide
      rw [childSpace_active h3 ha, hok.active]
      exact ⟨rfl, rfl, fun _ => ⟨rfl, rfl⟩⟩
  constructor
  · unfold asGetSegment
    refine List.find?_congr fun i hi => ?_
    obtain ⟨h1, -, hsame⟩ := hseg i (List.mem_range.mp hi)
    rw [h1]
    by_cases ha : (old.segments i).active = 0
    · simp [ha]
    · rw [inSegment, inSegment, (hsame ha).1, (hsame ha).2]
  · unfold asValidAddr
    congr 1
    rw [Bool.eq_iff_iff, List.any_eq_true, List.any_eq_true]
    refine exists_congr fun i => and_congr_right fun hi => ?_
    obtain ⟨-, h0, hsame⟩ := hseg i (List.mem_range.mp hi)
    rw [h0]
    by_cases ha : (old.segments i).active = 0
    · simp [ha]
    · rw [inCheckedRange, inCheckedRange, (hsame ha).1, (hsame ha).2]

theorem childSpace_view (hs : SpaceOk old) (hstack : (old.segments (asNumSeg - 1)).active ≠ 0) {x : Nat} {w : Bool} :
    (childSpace old args).view x = some (p, w) ↔ ∃ q i, old.view x = some (q, w) ∧ asGetSegment old x = some i ∧
      p = { block := args.blocks i, idx := q.idx } := by
  obtain ⟨hget, hvalid⟩ := @childSpace_lookup old args hs hstack x
  -- the segment of the address is active
  have hseg : ∀ i, asGetSegment old x = some i → (childSpace old args).segments i = childSegment old args i := by
    intro i hi
    obtain ⟨h3, ha, -⟩ := asGetSegment_some hi
    exact childSpace_active h3 (by rw [ha]; decide)
  rw [view_eq_some, hget, hvalid]
  constructor
  · rintro ⟨hx, hv, i, pt, hi, hpt, rfl, rfl⟩
    obtain ⟨block, hpt', -⟩ := page_of_segment hs hi
    rw [hseg i hi] at hpt
    obtain rfl := Option.some.inj hpt
    exact ⟨_, i, view_eq_some.mpr ⟨hx, hv, i, _, hi, hpt', rfl, by rw [hseg i hi]; rfl⟩, hi, by rw [hseg i hi]; rfl⟩
  · rintro ⟨q, i, hq, hi, rfl⟩
    obtain ⟨hx, hv, j, pt, hj, -, rfl, rfl⟩ := view_eq_some.mp hq
    obtain rfl := Option.some.inj (hi.symm.trans hj)
    exact ⟨hx, hv, i, _, hi, by rw [hseg i hi]; rfl, by rw [hseg i hi]; rfl, by rw [hseg i hi]; rfl⟩

structure CopyArgs.Ok (args : CopyArgs) (s : Sys) : Prop where
  inj : ∀ i < asNumSeg, ∀ j < asNumSeg, args.blocks i = args.blocks j → i = j
  fresh : ∀ i < asNumSeg, s.FreshBlock (args.blocks i)
  asPages : ∀ n ∈ args.asPages, 1 ≤ n
  ptPages : ∀ i < asNumSeg, ∀ n ∈ args.ptPages i, 1 ≤ n

variable {b : Bool} {s : Sys} {child : Nat}

theorem SysOk.forkable (h : SysOk b G own s) (hc : s.cur = some old) (hb : b = false → ∀ r, G.abs r = none) :
    Forkable G old (fileData s.vnodes old) := by
  obtain ⟨a, hca, ha⟩ := Sys.cur_some hc
  refine ⟨h.spaces.ok a old ha, fun q hq => h.page_live ha hq, fun i p hp => h.tracks.page a old i p ha hp,
    fun m hm => (h.view_of hc m hm).2, fun e => ?_⟩
  cases b with
  | false => exact hb rfl
  | true => rw [h.view_cur hc] at e; cases e

section
variable (h : SysOk b G own s) (hc : s.cur = some old) (hargs : args.Ok s) (hb : b = false → ∀ r, G.abs r = none)
  (hload : (∃ r, G.abs r ≠ none) → LoadsGood old (fileData s.vnodes old) args)
include h hc hargs hb hload

theorem asCopy_good {a : Nat} (hca : s.curAs = some a) :
    Post (asCopy s a old args)
      (fun r => r.1 = childSpace old args ∧ ∃ vnodes v' G' own',
        r.2.2 = { s with vm := v', vnodes := vnodes } ∧ (∀ as, fileData vnodes as = fileData s.vnodes as) ∧
        Idle G' own' (s.granted ++ r.2.1) v' ∧ Forked G G' old (copyPairs old args (List.range asNumSeg)))
      (NoSlotLeft fun r => s.Live r ∨ r ∈ (childSpace old args).pages) := by
  obtain ⟨a', hca', ha⟩ := Sys.cur_some hc
  obtain rfl := Option.some.inj (hca.symm.trans hca')
  obtain ⟨file, hfile⟩ : ∃ f, old.file = some f := Option.ne_none_iff_exists'.mp (h.spaces.file a old ha)
  have hdead : ∀ i ∈ List.range asNumSeg, ∀ r, r.block = args.blocks i → ¬ G.live r := by
    intro i hi r hr hl
    obtain ⟨a', as', j, ha', hj⟩ := Sys.live_iff.mp ((h.tracks.live r).mp hl)
    exact hargs.fresh i (List.mem_range.mp hi) a' j (hr ▸ hj.hasTable ha')
  have hlt : ∀ i ∈ List.range asNumSeg, i < asNumSeg := fun i => List.mem_range.mp
  unfold asCopy
  rw [hfile, hca, beq_self_eq_true]
  refine ((kmallocPages_good h.idle hargs.asPages).mono (fun _ h => h) fun c hc =>
    hc.mono fun r hr => Or.inl ((h.tracks.live r).mp hr)).bind ?_
  rintro ⟨runs, v₁⟩ - ⟨own₁, hi₁⟩
  dsimp only at hi₁ ⊢
  refine ((copySegments_good hlt List.nodup_range hi₁ (h.forkable hc hb)
    (fun i hi j hj => hargs.inj i (hlt i hi) j (hlt j hj))
    hdead (fun i hi => hargs.ptPages i (hlt i hi)) hload).mono (fun _ h => h) fun c hc => hc.mono ?_).bind ?_
  · rintro r (hl | hm)
    · exact Or.inl ((h.tracks.live r).mp hl)
    · exact Or.inr ((mem_childSpace_pages (h.spaces.ok a old ha) (h.spaces.stack a old ha)).mp hm)
  rintro ⟨new, runs', v'⟩ - ⟨hnew, G', own', hforked, hi'⟩
  refine ⟨?_, _, v', G', own', rfl, fun as => by rw [fileData_update]; rfl, hi', hforked⟩
  dsimp only at hnew ⊢
  rw [hnew]
  simp only [childSpace, hfile, List.mem_range]

theorem copy_ok (hchild : s.spaces child = none) :
    Post (step s (.copy child args))
      (fun s' =>
        s'.spaces = Function.update s.spaces child (some (childSpace old args)) ∧
        (∀ as, fileData s'.vnodes as = fileData s.vnodes as) ∧
        ∃ G' own', SysOk b G' own' s' ∧ Forked G G' old (copyPairs old args (List.range asNumSeg)))
      (NoSlotLeft fun r => s.Live r ∨ r ∈ (childSpace old args).pages) := by
  obtain ⟨a, hca, ha⟩ := Sys.cur_some hc
  have hok := h.spaces.ok a old ha
  have hstack := h.spaces.stack a old ha
  simp only [step, hca, hc]
  refine (asCopy_good h hc hargs hb hload hca).bind ?_
  rintro ⟨new, runs, s'⟩ - ⟨hnew, vnodes, v', G', own', hs', hdata, hi', hforked⟩
  dsimp only at hnew hs' hi' ⊢
  subst hnew hs'
  refine ⟨rfl, hdata, G', own', ?_, hforked⟩
  refine h.addSpace hchild (childSpace_ok hok hstack) (h.spaces.file a old ha) ?_ ?_ ?_
    (hforked.adds.congr fun _ => mem_childSpace_pages hok hstack) ?_ hdata hi'
  · rw [childSpace_active (by decide) hstack]
    exact Int.one_ne_zero
  · intro i pt ht
    rw [childSpace_table hstack ht]
    exact hargs.fresh i ht.lt
  · intro i j pt pt' ht ht' e
    rw [childSpace_table hstack ht, childSpace_table hstack ht'] at e
    exact hargs.inj i ht.lt j ht'.lt e
  · intro i p hp
    obtain ⟨q, hq, rfl⟩ := (childSpace_has hok hstack).mp hp
    obtain ⟨-, himg, hva, hdi⟩ := hforked.page q _ ((mem_copyPairs hok fun i => List.mem_range.mp).mpr
      ⟨i, List.mem_range.mpr hq.lt, hq, rfl⟩)
    rw [himg, hva, hdi, childSpace_active hq.lt hq.active]
    exact h.tracks.page a old i q ha hq

end

end Os161
