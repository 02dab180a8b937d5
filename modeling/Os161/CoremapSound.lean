import Os161.Coremap
import Os161.Lib.Links
import Os161.Lib.Outcome

/-!
# Ownership of frames: the free list

`Owner` says who has a frame; `CmOk own fl c` ties the core map to an
assignment of owners and to the frames `fl` on its free list. The list
operations move one frame between owners.
-/

namespace Os161

open Linked

/-- Who has a frame. A `busy` frame has been handed out by `cm_getppage` and
not yet been given to a page. -/
inductive Owner
  | free
  | kernel
  | user (p : PdPtr)
  | busy
  deriving DecidableEq, Repr

def Cm.InRange (c : Cm) (f : Nat) : Prop := c.lowestFrame ≤ f ∧ f < c.size

structure CmOk (own : Nat → Owner) (fl : List Nat) (c : Cm) : Prop where
  init : c.init = true
  room : c.lowestFrame < c.size
  ram : c.size ≤ 2 ^ 20
  clock : c.clockPointer < c.size - c.lowestFrame
  id_eq : ∀ f, c.InRange f → (c.coreDetails f).id = f
  links : DList (fun i => (c.coreDetails i).nextFree) (fun i => (c.coreDetails i).prevFree)
    c.freeFrameList c.lastFree fl
  mem_fl : ∀ f, f ∈ fl ↔ c.InRange f ∧ own f = .free
  flag : ∀ f, c.InRange f → ((c.coreDetails f).free = true ↔ own f = .free)

structure SameFrames (c c' : Cm) : Prop where
  init : c'.init = c.init
  size : c'.size = c.size
  lowest : c'.lowestFrame = c.lowestFrame
  clock : c'.clockPointer = c.clockPointer
  pd : ∀ g, (c'.coreDetails g).pd = (c.coreDetails g).pd
  id : ∀ g, (c'.coreDetails g).id = (c.coreDetails g).id

theorem SameFrames.refl (c : Cm) : SameFrames c c := ⟨rfl, rfl, rfl, rfl, fun _ => rfl, fun _ => rfl⟩

theorem SameFrames.trans {c c' c'' : Cm} (h : SameFrames c c') (h' : SameFrames c' c'') : SameFrames c c'' :=
  ⟨h'.init.trans h.init, h'.size.trans h.size, h'.lowest.trans h.lowest, h'.clock.trans h.clock,
    fun g => (h'.pd g).trans (h.pd g), fun g => (h'.id g).trans (h.id g)⟩

theorem SameFrames.inRange {c c' : Cm} (h : SameFrames c c') (f : Nat) : c'.InRange f ↔ c.InRange f := by
  unfold Cm.InRange; rw [h.size, h.lowest]

variable {c : Cm} {own : Nat → Owner} {fl : List Nat} {f : Nat}

theorem CmOk.move {c' : Cm} {fl' : List Nat} {o : Owner} (h : CmOk own fl c) (hs : SameFrames c c')
    (links : DList (fun i => (c'.coreDetails i).nextFree) (fun i => (c'.coreDetails i).prevFree)
      c'.freeFrameList c'.lastFree fl')
    (hm : ∀ g, g ∈ fl' ↔ c.InRange g ∧ Function.update own f o g = .free)
    (hf : ∀ g, c.InRange g → ((c'.coreDetails g).free = true ↔ Function.update own f o g = .free)) :
    CmOk (Function.update own f o) fl' c' where
  init := hs.init.trans h.init
  room := by rw [hs.size, hs.lowest]; exact h.room
  ram := by rw [hs.size]; exact h.ram
  clock := by rw [hs.size, hs.lowest, hs.clock]; exact h.clock
  id_eq g hg := by rw [hs.id]; exact h.id_eq g ((hs.inRange g).mp hg)
  links := links
  mem_fl g := by rw [hs.inRange]; exact hm g
  flag g hg := hf g ((hs.inRange g).mp hg)

theorem CmOk.not_mem (h : CmOk own fl c) (hf : own f ≠ .free) : f ∉ fl :=
  fun hm => hf ((h.mem_fl f).mp hm).2

/-! ## Start-up -/

theorem cmBootstrap_ok {size lowest : Nat} (core : Nat → CmDetail) (hlt : lowest < size) (hram : size ≤ 2 ^ 20) :
    CmOk (fun _ => .free) (List.range' lowest (size - lowest)).reverse (cmBootstrap size lowest core) := by
  obtain ⟨n, rfl⟩ : ∃ n, size = lowest + n + 1 := ⟨size - lowest - 1, by omega⟩
  have hn : lowest + n + 1 - lowest = n + 1 := by omega
  have hin : ∀ i ≤ n, lowest ≤ lowest + i ∧ lowest + i < lowest + n + 1 := fun i hi => by omega
  refine ⟨rfl, hlt, hram, by simp [cmBootstrap, hn], fun f hf => ?_, ⟨?_, ?_, ?_⟩, fun f => ?_, fun f hf => ?_⟩
  · have : lowest ≤ f ∧ f < lowest + n + 1 := hf
    simp only [cmBootstrap, if_pos this]
  · rw [hn]
    refine chain_range'_reverse lowest n (fun i hi => ?_) ?_
    · have := hin (i + 1) hi
      simp only [cmBootstrap, Nat.add_assoc] at this ⊢
      simp [this]
    · simp only [cmBootstrap, Nat.le_refl, hlt, and_self, if_pos]
  · rw [List.reverse_reverse, hn]
    refine chain_range' lowest n (fun i hi => ?_) ?_
    · have := hin i (Nat.le_of_lt hi)
      simp only [cmBootstrap, this, and_self, ite_true]
      rw [if_neg (by omega)]
    · simp [cmBootstrap]
  · exact List.nodup_reverse.mpr List.nodup_range'
  · simp only [List.mem_reverse, List.mem_range'_1, Cm.InRange, cmBootstrap, and_true]
    omega
  · have : lowest ≤ f ∧ f < lowest + n + 1 := hf
    simp only [cmBootstrap, if_pos this]

/-! ## Adding a frame -/

theorem freeFrameListAdd_same (c : Cm) (f : Nat) : SameFrames c (freeFrameListAdd c f) := by
  unfold freeFrameListAdd
  cases c.freeFrameList with
  | none =>
    refine ⟨rfl, rfl, rfl, rfl, fun g => ?_, fun g => ?_⟩ <;>
      grind [Cm.modify_coreDetails]
  | some head =>
    refine ⟨rfl, rfl, rfl, rfl, fun g => ?_, fun g => ?_⟩ <;>
      grind [Cm.modify_coreDetails]

theorem freeFrameListAdd_kern (c : Cm) (f g : Nat) :
    ((freeFrameListAdd c f).coreDetails g).kern = if g = f then 0 else (c.coreDetails g).kern := by
  unfold freeFrameListAdd
  cases c.freeFrameList <;> grind [Cm.modify_coreDetails]

theorem freeFrameListAdd_free (c : Cm) (f g : Nat) :
    ((freeFrameListAdd c f).coreDetails g).free = if g = f then true else (c.coreDetails g).free := by
  unfold freeFrameListAdd
  cases c.freeFrameList <;> grind [Cm.modify_coreDetails]

theorem update_free_iff (own : Nat → Owner) (f g : Nat) :
    Function.update own f .free g = .free ↔ g = f ∨ own g = .free := by
  rw [Function.update_apply]; split <;> simp_all

theorem update_ne_free_iff {o : Owner} (ho : o ≠ .free) (own : Nat → Owner) (f g : Nat) :
    Function.update own f o g = .free ↔ g ≠ f ∧ own g = .free := by
  rw [Function.update_apply]; split <;> simp_all

theorem freeFrameListAdd_links (h : CmOk own fl c) (hf : own f ≠ .free) :
    DList (fun i => ((freeFrameListAdd c f).coreDetails i).nextFree)
      (fun i => ((freeFrameListAdd c f).coreDetails i).prevFree)
      (freeFrameListAdd c f).freeFrameList (freeFrameListAdd c f).lastFree (f :: fl) := by
  have hmem := h.not_mem hf
  have hd := h.links
  have hhead := hd.head_eq
  unfold freeFrameListAdd
  cases fl with
  | nil =>
    rw [hhead]
    exact DList.singleton (by simp) (by simp)
  | cons b l =>
    rw [hhead] at hd ⊢
    have hb : b ≠ f := fun e => hmem (by simp [e])
    refine hd.push_front hmem ?_ (fun x hx => ?_) ?_ ?_ fun x hx => ?_
    · simp [Cm.modify_coreDetails, hb.symm]
    · have hxf : x ≠ f := fun e => hmem (e ▸ hx)
      rcases eq_or_ne x b with rfl | hxb
      · simp [Cm.modify_coreDetails, hxf]
      · simp [Cm.modify_coreDetails, hxf, hxb]
    · simp [Cm.modify_coreDetails, hb.symm]
    · simp [Cm.modify_coreDetails, hb]
    · have hxf : x ≠ f := fun e => hmem (e ▸ List.mem_cons_of_mem _ hx)
      have hxb : x ≠ b := fun e => (List.nodup_cons.mp hd.nodup).1 (e ▸ hx)
      simp [Cm.modify_coreDetails, hxf, hxb]

theorem freeFrameListAdd_ok (h : CmOk own fl c) (hr : c.InRange f) (hf : own f ≠ .free) :
    CmOk (Function.update own f .free) (f :: fl) (freeFrameListAdd c f) := by
  refine h.move (freeFrameListAdd_same c f) (freeFrameListAdd_links h hf) (fun g => ?_) fun g hg => ?_
  · rw [update_free_iff, List.mem_cons, h.mem_fl]
    constructor
    · rintro (rfl | hg)
      · exact ⟨hr, Or.inl rfl⟩
      · exact ⟨hg.1, Or.inr hg.2⟩
    · rintro ⟨hg, rfl | ho⟩
      · exact Or.inl rfl
      · exact Or.inr ⟨hg, ho⟩
  · rw [freeFrameListAdd_free, update_free_iff]
    split
    · simp_all
    · simp_all [h.flag g hg]

/-! ## Adding a frame at the end -/

theorem freeFrameListAddBack_same (c : Cm) (f : Nat) : SameFrames c (freeFrameListAddBack c f) := by
  unfold freeFrameListAddBack
  cases c.lastFree with
  | none =>
    refine ⟨rfl, rfl, rfl, rfl, fun g => ?_, fun g => ?_⟩ <;>
      grind [Cm.modify_coreDetails]
  | some last =>
    refine ⟨rfl, rfl, rfl, rfl, fun g => ?_, fun g => ?_⟩ <;>
      grind [Cm.modify_coreDetails]

theorem freeFrameListAddBack_kern (c : Cm) (f g : Nat) :
    ((freeFrameListAddBack c f).coreDetails g).kern = if g = f then 0 else (c.coreDetails g).kern := by
  unfold freeFrameListAddBack
  cases c.lastFree <;> grind [Cm.modify_coreDetails]

theorem freeFrameListAddBack_free (c : Cm) (f g : Nat) :
    ((freeFrameListAddBack c f).coreDetails g).free = if g = f then true else (c.coreDetails g).free := by
  unfold freeFrameListAddBack
  cases c.lastFree <;> grind [Cm.modify_coreDetails]

theorem freeFrameListAddBack_links (h : CmOk own fl c) (hf : own f ≠ .free) :
    DList (fun i => ((freeFrameListAddBack c f).coreDetails i).nextFree)
      (fun i => ((freeFrameListAddBack c f).coreDetails i).prevFree)
      (freeFrameListAddBack c f).freeFrameList (freeFrameListAddBack c f).lastFree (fl ++ [f]) := by
  have hmem := h.not_mem hf
  have hd := h.links
  have hlast := hd.last_eq
  unfold freeFrameListAddBack
  rcases List.eq_nil_or_concat fl with rfl | ⟨l, b, rfl⟩
  · rw [hlast]
    exact DList.singleton (by simp) (by simp)
  · simp only [List.concat_eq_append] at hmem hd hlast ⊢
    simp only [List.getLast?_append, List.getLast?_singleton, Option.some_or] at hlast
    rw [hlast] at hd ⊢
    have hb : b ≠ f := fun e => hmem (by simp [e])
    rw [List.append_assoc]
    refine hd.push_back hmem ?_ (fun x hx => ?_) ?_ ?_ fun x hx => ?_
    · simp [Cm.modify_coreDetails, hb.symm]
    · have hxf : x ≠ f := fun e => hmem (e ▸ hx)
      rcases eq_or_ne x b with rfl | hxb
      · simp [Cm.modify_coreDetails, hxf]
      · simp [Cm.modify_coreDetails, hxf, hxb]
    · simp [Cm.modify_coreDetails, hb.symm]
    · simp [Cm.modify_coreDetails, hb]
    · have hxf : x ≠ f := fun e => hmem (e ▸ List.mem_append_left _ hx)
      have hxb : x ≠ b := by
        rintro rfl
        have := List.nodup_append.mp hd.nodup
        exact this.2.2 x hx x (List.mem_singleton_self x) rfl
      simp [Cm.modify_coreDetails, hxf, hxb]

theorem freeFrameListAddBack_ok (h : CmOk own fl c) (hr : c.InRange f) (hf : own f ≠ .free) :
    CmOk (Function.update own f .free) (fl ++ [f]) (freeFrameListAddBack c f) := by
  refine h.move (freeFrameListAddBack_same c f) (freeFrameListAddBack_links h hf) (fun g => ?_) fun g hg => ?_
  · rw [update_free_iff, List.mem_append, List.mem_singleton, h.mem_fl]
    constructor
    · rintro (hg | rfl)
      · exact ⟨hg.1, Or.inr hg.2⟩
      · exact ⟨hr, Or.inl rfl⟩
    · rintro ⟨hg, rfl | ho⟩
      · exact Or.inr rfl
      · exact Or.inl ⟨hg, ho⟩
  · rw [freeFrameListAddBack_free, update_free_iff]
    split
    · simp_all
    · simp_all [h.flag g hg]

/-! ## Taking the first frame -/

theorem freeFrameListPop_nil (h : CmOk own [] c) : freeFrameListPop c = (none, c) := by
  unfold freeFrameListPop
  rw [h.links.head_eq]
  rfl

def popped (c : Cm) : Cm := (freeFrameListPop c).2

theorem freeFrameListPop_cons (h : CmOk own (f :: fl) c) : freeFrameListPop c = (some f, popped c) := by
  have hh : c.freeFrameList = some f := h.links.head_eq
  unfold popped freeFrameListPop
  rw [hh]

theorem popped_same (h : CmOk own (f :: fl) c) : SameFrames c (popped c) := by
  have hh : c.freeFrameList = some f := h.links.head_eq
  unfold popped freeFrameListPop
  rw [hh]
  cases hn : (c.coreDetails f).nextFree with
  | none =>
    simp only [hn]
    refine ⟨rfl, rfl, rfl, rfl, fun g => ?_, fun g => ?_⟩ <;> grind [Cm.modify_coreDetails]
  | some b =>
    simp only [hn]
    refine ⟨rfl, rfl, rfl, rfl, fun g => ?_, fun g => ?_⟩ <;> grind [Cm.modify_coreDetails]

theorem popped_flags (h : CmOk own (f :: fl) c) (g : Nat) :
    ((popped c).coreDetails g).kern = (if g = f then 1 else (c.coreDetails g).kern) ∧
      ((popped c).coreDetails g).free = if g = f then false else (c.coreDetails g).free := by
  have hh : c.freeFrameList = some f := h.links.head_eq
  unfold popped freeFrameListPop
  rw [hh]
  cases hn : (c.coreDetails f).nextFree <;> simp only [hn] <;> grind [Cm.modify_coreDetails]

theorem popped_links (h : CmOk own (f :: fl) c) :
    DList (fun i => ((popped c).coreDetails i).nextFree) (fun i => ((popped c).coreDetails i).prevFree)
      (popped c).freeFrameList (popped c).lastFree fl := by
  have hd := h.links
  have hh : c.freeFrameList = some f := hd.head_eq
  have hn : (c.coreDetails f).nextFree = fl.head? := by
    have := hd.fwd
    rw [← List.nil_append (f :: fl)] at this
    exact this.link
  unfold popped freeFrameListPop
  rw [hh]
  cases fl with
  | nil =>
    simp only [List.head?_nil] at hn
    simp only [hn]
    exact DList.empty
  | cons b l =>
    simp only [List.head?_cons] at hn
    simp only [hn]
    have hfl := List.nodup_cons.mp hd.nodup
    refine hd.pop_front (fun x hx => ?_) ?_ fun x hx => ?_
    · have hxf : x ≠ f := fun e => hfl.1 (e ▸ hx)
      rcases eq_or_ne x b with rfl | hxb
      · simp [Cm.modify_coreDetails, hxf]
      · simp [Cm.modify_coreDetails, hxf, hxb]
    · have hbf : b ≠ f := fun e => hfl.1 (by simp [e])
      simp [Cm.modify_coreDetails, hbf]
    · have hxf : x ≠ f := fun e => hfl.1 (e ▸ List.mem_cons_of_mem _ hx)
      have hxb : x ≠ b := fun e => (List.nodup_cons.mp hfl.2).1 (e ▸ hx)
      simp [Cm.modify_coreDetails, hxf, hxb]

theorem popped_ok {o : Owner} (ho : o ≠ .free) (h : CmOk own (f :: fl) c) :
    CmOk (Function.update own f o) fl (popped c) := by
  have hfl := (List.nodup_cons.mp h.links.nodup).1
  refine h.move (popped_same h) (popped_links h) (fun g => ?_) fun g hg => ?_
  · have := h.mem_fl g
    rw [List.mem_cons] at this
    rw [update_ne_free_iff ho]
    constructor
    · intro hm
      have hr := this.mp (Or.inr hm)
      exact ⟨hr.1, fun e => hfl (e ▸ hm), hr.2⟩
    · rintro ⟨hr, hne, hof⟩
      exact (this.mpr ⟨hr, hof⟩).resolve_left hne
  · rw [(popped_flags h g).2, update_ne_free_iff ho]
    split
    · simp_all
    · simp_all [h.flag g hg]

/-! ## Removing a frame from the list -/

structure Relinked (c c₁ : Cm) (l : List Nat) : Prop where
  same : SameFrames c c₁
  links : DList (fun i => (c₁.coreDetails i).nextFree) (fun i => (c₁.coreDetails i).prevFree)
    c₁.freeFrameList c₁.lastFree l
  kern : ∀ g, (c₁.coreDetails g).kern = (c.coreDetails g).kern
  free : ∀ g, (c₁.coreDetails g).free = (c.coreDetails g).free

theorem relinked_modify {i : Nat} {k : CmDetail → CmDetail} {c₀ : Cm} {l : List Nat}
    (hc : c₀.coreDetails = c.coreDetails)
    (hs : c₀.init = c.init ∧ c₀.size = c.size ∧ c₀.lowestFrame = c.lowestFrame ∧ c₀.clockPointer = c.clockPointer)
    (hk : ∀ d, (k d).pd = d.pd ∧ (k d).id = d.id ∧ (k d).kern = d.kern ∧ (k d).free = d.free)
    (links : DList (fun j => ((c₀.modify i k).coreDetails j).nextFree)
      (fun j => ((c₀.modify i k).coreDetails j).prevFree)
      c₀.freeFrameList c₀.lastFree l) : Relinked c (c₀.modify i k) l := by
  refine ⟨⟨hs.1, hs.2.1, hs.2.2.1, hs.2.2.2, fun g => ?_, fun g => ?_⟩, links, fun g => ?_, fun g => ?_⟩ <;>
    · rw [Cm.modify_coreDetails, hc]
      split
      · subst_vars; simp [hk]
      · rfl

section
variable {b p n : Nat} {l l₁ l₂ : List Nat}

theorem unlinkFrame_only (h : CmOk own [f] c) : ∃ c₁, unlinkFrame c f = .ok c₁ ∧ Relinked c c₁ [] := by
  have hh : c.freeFrameList = some f := h.links.head_eq
  have ht : c.lastFree = some f := h.links.last_eq
  refine ⟨{ c with freeFrameList := none, lastFree := none }, by simp [unlinkFrame, hh, ht], ?_⟩
  exact ⟨⟨rfl, rfl, rfl, rfl, fun _ => rfl, fun _ => rfl⟩, DList.empty, fun _ => rfl, fun _ => rfl⟩

theorem unlinkFrame_first (h : CmOk own (f :: b :: l) c) :
    ∃ c₁, unlinkFrame c f = .ok c₁ ∧ Relinked c c₁ (b :: l) := by
  have hd := h.links
  have hh : c.freeFrameList = some f := hd.head_eq
  have ht : c.lastFree = (b :: l).getLast? := by rw [hd.last_eq, List.getLast?_cons_cons]
  have hfl := List.nodup_cons.mp hd.nodup
  obtain ⟨t, ht'⟩ : ∃ t, (b :: l).getLast? = some t := ⟨_, List.getLast?_eq_some_getLast (by simp)⟩
  have hft : f ≠ t := fun e => hfl.1 (e ▸ List.mem_of_getLast? ht')
  have hn : (c.coreDetails f).nextFree = some b := hd.fwd.2.1
  refine ⟨({ c with freeFrameList := some b } : Cm).modify b fun d => { d with prevFree := none },
    by simp [unlinkFrame, hh, ht, ht', hft, hn],
    relinked_modify rfl ⟨rfl, rfl, rfl, rfl⟩ (fun d => ⟨rfl, rfl, rfl, rfl⟩) ?_⟩
  refine hd.pop_front (fun x hx => ?_) (by simp) fun x hx => ?_
  · rcases eq_or_ne x b with rfl | hxb
    · simp
    · simp [Cm.modify_coreDetails, hxb]
  · have hxb : x ≠ b := fun e => (List.nodup_cons.mp hfl.2).1 (e ▸ hx)
    simp [Cm.modify_coreDetails, hxb]

theorem unlinkFrame_last (h : CmOk own (l ++ [b, f]) c) :
    ∃ c₁, unlinkFrame c f = .ok c₁ ∧ Relinked c c₁ (l ++ [b]) := by
  have hd := h.links
  have hh : c.freeFrameList = (l ++ [b]).head? := by rw [hd.head_eq]; cases l <;> rfl
  have ht : c.lastFree = some f := by rw [hd.last_eq]; simp
  obtain ⟨hnd, -, hbf⟩ : (l ++ [b]).Nodup ∧ _ ∧ ∀ x ∈ l ++ [b], x ≠ f := by
    have := hd.nodup
    rw [show l ++ [b, f] = (l ++ [b]) ++ [f] by simp, List.nodup_append] at this
    exact ⟨this.1, this.2.1, fun x hx => this.2.2 x hx f (List.mem_singleton_self f)⟩
  obtain ⟨t, ht'⟩ : ∃ t, (l ++ [b]).head? = some t := ⟨_, List.head?_eq_some_head (by simp)⟩
  have hft : t ≠ f := hbf t (List.mem_of_mem_head? ht')
  have hp : (c.coreDetails f).prevFree = some b := by
    have := hd.bwd
    rw [show (l ++ [b, f]).reverse = [] ++ f :: b :: l.reverse by simp] at this
    exact this.link
  refine ⟨({ c with lastFree := some b } : Cm).modify b fun d => { d with nextFree := none },
    by simp [unlinkFrame, hh, ht, ht', hft, hp],
    relinked_modify rfl ⟨rfl, rfl, rfl, rfl⟩ (fun d => ⟨rfl, rfl, rfl, rfl⟩) ?_⟩
  refine hd.pop_back (fun x hx => ?_) (by simp) fun x hx => ?_
  · rcases eq_or_ne x b with rfl | hxb
    · simp
    · simp [Cm.modify_coreDetails, hxb]
  · have hxb : x ≠ b := by
      rintro rfl
      exact (List.nodup_append.mp hnd).2.2 x hx x (List.mem_singleton_self x) rfl
    simp [Cm.modify_coreDetails, hxb]

theorem unlinkFrame_middle (h : CmOk own (l₁ ++ p :: f :: n :: l₂) c) :
    ∃ c₁, unlinkFrame c f = .ok c₁ ∧ Relinked c c₁ (l₁ ++ p :: n :: l₂) := by
  have hd := h.links
  have hnd := hd.nodup
  have hne : ∀ x ∈ l₁, x ≠ p ∧ x ≠ f ∧ x ≠ n := by
    intro x hx
    have := (List.nodup_append.mp hnd).2.2 x hx
    exact ⟨this p (by simp), this f (by simp), this n (by simp)⟩
  obtain ⟨hpfn, hfn, hn⟩ : p ∉ f :: n :: l₂ ∧ f ∉ n :: l₂ ∧ n ∉ l₂ := by
    have := (List.nodup_append.mp hnd).2.1
    simp only [List.nodup_cons] at this
    exact ⟨this.1, this.2.1, this.2.2.1⟩
  have hpf : p ≠ f := fun e => hpfn (by simp [e])
  have hpn : p ≠ n := fun e => hpfn (by simp [e])
  have hfn' : f ≠ n := fun e => hfn (by simp [e])
  have hhead : ∃ a, c.freeFrameList = some a ∧ a ∈ l₁ ++ [p] := by
    rw [hd.head_eq]; cases l₁ with
    | nil => exact ⟨p, rfl, by simp⟩
    | cons a l => exact ⟨a, rfl, by simp⟩
  have hlast : ∃ a, c.lastFree = some a ∧ a ∈ n :: l₂ := by
    rw [hd.last_eq, show l₁ ++ p :: f :: n :: l₂ = (l₁ ++ [p, f]) ++ n :: l₂ by simp, List.getLast?_append]
    exact ⟨(n :: l₂).getLast (by simp), by rw [List.getLast?_eq_some_getLast (by simp)]; rfl, List.getLast_mem _⟩
  obtain ⟨a, ha, hal⟩ := hhead
  obtain ⟨t, ht, htl⟩ := hlast
  have haf : a ≠ f := by
    rcases List.mem_append.mp hal with hal | hal
    · exact (hne a hal).2.1
    · rw [List.mem_singleton.mp hal]; exact hpf
  have htf : t ≠ f := fun e => hfn (e ▸ htl)
  have hat : a ≠ t := by
    rintro rfl
    rcases List.mem_append.mp hal with hal | hal
    · exact (List.nodup_append.mp hnd).2.2 a hal a (by simp only [List.mem_cons] at htl ⊢; tauto) rfl
    · rw [List.mem_singleton.mp hal] at htl; exact hpfn (List.mem_cons_of_mem _ htl)
  have hnx : (c.coreDetails f).nextFree = some n := by
    have := hd.fwd
    rw [show l₁ ++ p :: f :: n :: l₂ = (l₁ ++ [p]) ++ f :: n :: l₂ by simp] at this
    exact this.link
  have hpv : (c.coreDetails f).prevFree = some p := by
    have := hd.bwd
    rw [show (l₁ ++ p :: f :: n :: l₂).reverse = (l₂.reverse ++ [n]) ++ f :: p :: l₁.reverse by simp] at this
    exact this.link
  refine ⟨(c.modify p fun d => { d with nextFree := some n }).modify n fun d => { d with prevFree := some p },
    by simp [unlinkFrame, ha, ht, haf, htf, hat, hnx, hpv, Cm.modify_of_ne hpf.symm], ?_⟩
  have hother : ∀ x ∈ l₂, x ≠ p ∧ x ≠ n := fun x hx =>
    ⟨fun e => hpfn (e ▸ by simp [hx]), fun e => hn (e ▸ hx)⟩
  refine ⟨?_, hd.unlink ?_ (fun x hx => ?_) ?_ fun x hx => ?_, fun g => ?_, fun g => ?_⟩
  · refine ⟨rfl, rfl, rfl, rfl, fun g => ?_, fun g => ?_⟩ <;> grind [Cm.modify_coreDetails]
  · simp [Cm.modify_coreDetails, hpn, hnx]
  · have hxp : x ≠ p := by
      simp only [List.mem_append, List.mem_cons] at hx
      rcases hx with hx | rfl | hx
      · exact (hne x hx).1
      · exact hpn.symm
      · exact (hother x hx).1
    rcases eq_or_ne x n with rfl | hxn
    · simp [Cm.modify_coreDetails, hxp]
    · simp [Cm.modify_coreDetails, hxp, hxn]
  · simp [Cm.modify_coreDetails, hpv]
  · have hxn : x ≠ n := by
      simp only [List.mem_append, List.mem_cons] at hx
      rcases hx with hx | rfl | hx
      · exact (hne x hx).2.2
      · exact hpn
      · exact (hother x hx).2
    rcases eq_or_ne x p with rfl | hxp
    · simp [Cm.modify_coreDetails, hxn]
    · simp [Cm.modify_coreDetails, hxp, hxn]
  all_goals grind [Cm.modify_coreDetails]

end

theorem unlinkFrame_ok (h : CmOk own fl c) (hf : f ∈ fl) :
    ∃ c₁, unlinkFrame c f = .ok c₁ ∧ Relinked c c₁ (fl.erase f) := by
  obtain ⟨l₁, l₂, rfl⟩ := List.append_of_mem hf
  have hfl : f ∉ l₁ := fun hx => (List.nodup_append.mp h.links.nodup).2.2 f hx f (by simp) rfl
  rw [List.erase_append_right _ hfl, List.erase_cons_head]
  rcases List.eq_nil_or_concat l₁ with rfl | ⟨l₁, p, rfl⟩
  · cases l₂ with
    | nil => exact unlinkFrame_only h
    | cons b l => exact unlinkFrame_first h
  · simp only [List.concat_eq_append, List.append_assoc, List.cons_append, List.nil_append] at h ⊢
    cases l₂ with
    | nil => exact unlinkFrame_last h
    | cons n l₂ => exact unlinkFrame_middle h

theorem freeFrameListRemove_ok {o : Owner} (ho : o ≠ .free) (h : CmOk own fl c) (hf : f ∈ fl) :
    ∃ c', freeFrameListRemove c f = .ok c' ∧ CmOk (Function.update own f o) (fl.erase f) c' ∧ SameFrames c c' ∧
      ∀ g, (c'.coreDetails g).kern = if g = f then 1 else (c.coreDetails g).kern := by
  obtain ⟨c₁, he, hc₁⟩ := unlinkFrame_ok h hf
  have hs : SameFrames c (c₁.modify f fun d => { d with free := false, kern := 1 }) := by
    refine hc₁.same.trans ⟨rfl, rfl, rfl, rfl, fun g => ?_, fun g => ?_⟩ <;> grind [Cm.modify_coreDetails]
  have hfe : f ∉ fl.erase f := h.links.nodup.not_mem_erase
  refine ⟨_, by simp only [freeFrameListRemove, he]; rfl, h.move hs ?_ (fun g => ?_) fun g hg => ?_, hs, fun g => ?_⟩
  · have hne : ∀ x ∈ fl.erase f, x ≠ f := fun x hx e => hfe (e ▸ hx)
    exact hc₁.links.congr (fun x hx => by simp [Cm.modify_of_ne (hne x hx)])
      fun x hx => by simp [Cm.modify_of_ne (hne x hx)]
  · rw [update_ne_free_iff ho, h.links.nodup.mem_erase_iff, h.mem_fl]
    tauto
  · rw [update_ne_free_iff ho, Cm.modify_coreDetails]
    split
    · simp_all
    · rw [hc₁.free, h.flag g hg]; simp_all
  · rw [Cm.modify_coreDetails]
    split
    · rfl
    · exact hc₁.kern g

end Os161
