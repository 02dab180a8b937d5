import Os161.BmapSound

/-!
# Truncation

`sfs_truncate` compares the number of blocks of the new length in three ways:
with a direct block, with the last block of the indirect block, and with an
entry of it. What it discards follows from that, and where it discards what
lies past the new end and nothing else.
-/

namespace Os161

open Bytes Proc

section
variable {s s' s'' : Sfs} {i b L : Nat} {sv : SfsVnode} {F G : Nat → Prop} {E : Errno → Sfs → Prop} {K : FsPanic → Prop}

/-! ## Clearing bits -/

structure Frees (s : Sfs) (F : Nat → Prop) (s' : Sfs) : Prop where
  super : s'.sfsSuper = s.sfsSuper
  dBlocks : s'.dBlocks = s.dBlocks
  lost : s'.lost = s.lost
  calm : s.faults = [] → s'.faults = []
  cleared : ∀ b, F b → s'.sfsFreemap b = false
  same : ∀ b, ¬ F b → s'.sfsFreemap b = s.sfsFreemap b

theorem Frees.nbits (h : Frees s F s') : s'.nbits = s.nbits := by
  unfold Sfs.nbits Sfs.nblocks
  rw [h.super]

theorem Frees.refl (hF : ∀ b, ¬ F b) : Frees s F s := ⟨rfl, rfl, rfl, id, fun b hb => absurd hb (hF b), fun _ _ => rfl⟩

theorem Frees.setMark (s : Sfs) (b : Nat) : Frees s (· = b) (s.setMark b false) := by
  refine ⟨rfl, rfl, rfl, id, fun c hc => ?_, fun c hc => ?_⟩
  · rw [hc]
    exact Function.update_self b false s.sfsFreemap
  · exact Function.update_of_ne hc false s.sfsFreemap

theorem Frees.trans (h : Frees s F s') (h' : Frees s' G s'') : Frees s (fun b => F b ∨ G b) s'' := by
  refine ⟨h'.super.trans h.super, h'.dBlocks.trans h.dBlocks, h'.lost.trans h.lost, fun hf => h'.calm (h.calm hf),
    fun b hb => ?_, fun b hb => ?_⟩
  · by_cases hG : G b
    · exact h'.cleared b hG
    · rw [h'.same b hG]
      exact h.cleared b (hb.resolve_right hG)
  · rw [h'.same b fun hG => hb (Or.inr hG), h.same b fun hF => hb (Or.inl hF)]

theorem Frees.congr (h : Frees s F s') (hFG : ∀ b, F b ↔ G b) : Frees s G s' :=
  ⟨h.super, h.dBlocks, h.lost, h.calm, fun b hb => h.cleared b ((hFG b).mpr hb),
    fun b hb => h.same b fun hF => hb ((hFG b).mp hF)⟩

theorem Frees.marked (h : Frees s F s') (hb : b < s.nbits ∧ s.sfsFreemap b = true) (hF : ¬ F b) :
    b < s'.nbits ∧ s'.sfsFreemap b = true := by
  rw [h.nbits, h.same b hF]
  exact hb

/-- The blocks that `f` leads to from `l` are marked, and no two are the same. -/
structure Marks {ι : Type} (s : Sfs) (l : List ι) (f : ι → Nat) : Prop where
  nodup : l.Nodup
  marked : ∀ k ∈ l, f k ≠ 0 → f k < s.nbits ∧ s.sfsFreemap (f k) = true
  inj : ∀ k ∈ l, ∀ k' ∈ l, f k ≠ 0 → f k = f k' → k = k'

section
variable {ι : Type} {P : ι → Prop} {f f' : ι → Nat} {k : ι} {l : List ι}

theorem Marks.tail (h : Marks s (k :: l) f) : Marks s l f :=
  ⟨(List.nodup_cons.mp h.nodup).2, fun k' hk' => h.marked k' (List.mem_cons_of_mem _ hk'),
    fun k₁ h₁ k₂ h₂ => h.inj k₁ (List.mem_cons_of_mem _ h₁) k₂ (List.mem_cons_of_mem _ h₂)⟩

theorem Marks.free (h : Marks s (k :: l) f) (h0 : f k ≠ 0) (hf : ∀ k' ∈ l, f' k' = f k') :
    Marks (s.setMark (f k) false) l f' := by
  refine ⟨h.tail.nodup, fun k' hk' => ?_, fun k₁ h₁ k₂ h₂ => ?_⟩
  · rw [hf k' hk']
    refine fun hk0 => (Frees.setMark s (f k)).marked (h.tail.marked k' hk' hk0) fun e => ?_
    obtain rfl := h.inj k List.mem_cons_self k' (List.mem_cons_of_mem _ hk') h0 e.symm
    exact (List.nodup_cons.mp h.nodup).1 hk'
  · rw [hf k₁ h₁, hf k₂ h₂]
    exact h.tail.inj k₁ h₁ k₂ h₂

theorem freed_cons (hk : P k ∧ f k ≠ 0) (hf : ∀ k' ∈ l, f' k' = f k') (b : Nat) :
    (b = f k ∨ ∃ k' ∈ l, P k' ∧ f' k' = b ∧ b ≠ 0) ↔ ∃ k' ∈ k :: l, P k' ∧ f k' = b ∧ b ≠ 0 := by
  simp only [List.mem_cons, exists_eq_or_imp]
  refine or_congr ⟨?_, fun h => h.2.1.symm⟩ (exists_congr fun k' => and_congr_right fun hk' => by rw [hf k' hk'])
  rintro rfl
  exact ⟨hk.1, rfl, hk.2⟩

theorem freed_skip (hk : ¬ (P k ∧ f k ≠ 0)) (b : Nat) :
    (∃ k' ∈ l, P k' ∧ f k' = b ∧ b ≠ 0) ↔ ∃ k' ∈ k :: l, P k' ∧ f k' = b ∧ b ≠ 0 := by
  simp only [List.mem_cons, exists_eq_or_imp]
  refine ⟨Or.inr, fun h => h.resolve_left ?_⟩
  rintro ⟨hP, rfl, h0⟩
  exact hk ⟨hP, h0⟩

end

/-! ## I/O that may fail -/

theorem wp_nextFault_any {Q : Bool → Sfs → Prop}
    (hQ : ∀ faults, (s.faults = [] → faults = []) → Q false { s with faults := faults })
    (hE : s.faults ≠ [] → ∀ s', Q true s') : wp nextFault Q E K s := by
  unfold wp nextFault
  cases hf : s.faults with
  | nil => exact hQ s.faults id
  | cons x faults =>
    have hne : s.faults ≠ [] := by rw [hf]; simp
    cases x with
    | true => exact hE hne _
    | false => exact hQ faults fun h => absurd h hne

theorem wp_rblock_any {Q : Mem → Sfs → Prop} (hb : sectorOf b = b ∧ b < s.dBlocks)
    (hQ : ∀ faults, (s.faults = [] → faults = []) → Q (s.disk b) { s with faults := faults })
    (hE : s.faults ≠ [] → ∀ s', E .eio s') : wp (sfsRblock b) Q E K s := by
  simp only [sfsRblock, wp_bind, wp_get, hb.1, if_neg (Nat.not_le.mpr hb.2)]
  refine wp_nextFault_any (fun faults hf => ?_) fun hne s' => ?_
  · simpa using hQ faults hf
  · simpa using hE hne s'

/-! ## Direct blocks -/

def Inode.clearDirect (d : Inode) (L : Nat) (l : List (Fin sfsNdirect)) : Inode :=
  { d with sfiDirect := fun k => if k ∈ l ∧ L ≤ k then 0 else d.sfiDirect k }

theorem Inode.clearDirect_cons {d : Inode} {k : Fin sfsNdirect} {l : List (Fin sfsNdirect)} (hk : L ≤ k) :
    (d.setDirect k 0).clearDirect L l = d.clearDirect L (k :: l) := by
  unfold clearDirect setDirect
  congr 1
  funext k'
  by_cases e : k' = k
  · simp [e, hk]
  · simp [e]

theorem Inode.clearDirect_skip {d : Inode} {k : Fin sfsNdirect} {l : List (Fin sfsNdirect)}
    (hk : ¬ (L ≤ k ∧ d.sfiDirect k ≠ 0)) : d.clearDirect L l = d.clearDirect L (k :: l) := by
  unfold clearDirect
  congr 1
  funext k'
  by_cases e : k' = k
  · subst e
    by_cases hL : L ≤ k'
    · have hz : d.sfiDirect k' = 0 := by
        by_contra hne
        exact hk ⟨hL, hne⟩
      simp [hz]
    · simp [hL]
  · simp [e]

theorem truncDirect_spec {l : List (Fin sfsNdirect)} (hv : s.vnode i = some sv) (hm : Marks s l sv.svI.sfiDirect) :
    wp (truncDirect i L l) (fun _ s' => (∃ sv', s'.vnode i = some sv' ∧ sv'.svI = sv.svI.clearDirect L l) ∧
      s'.disk = s.disk ∧ Frees s (fun b => ∃ k ∈ l, L ≤ k ∧ sv.svI.sfiDirect k = b ∧ b ≠ 0) s') E K s := by
  induction l generalizing s sv with
  | nil =>
    refine ⟨⟨sv, hv, ?_⟩, rfl, .refl fun b hb => hb.elim fun k hk => absurd hk.1 List.not_mem_nil⟩
    simp [Inode.clearDirect]
  | cons k l ih =>
    simp only [truncDirect, wp_bind, wp_getSv hv]
    by_cases hk : L ≤ k ∧ sv.svI.sfiDirect k ≠ 0
    · obtain ⟨hlt, hmark⟩ := hm.marked k List.mem_cons_self hk.2
      rw [if_pos hk]
      simp only [wp_bind]
      rw [wp_bfree_marked hlt hmark, wp_bind, wp_modifySv]
      -- the other direct blocks are as they were
      have hother : ∀ k' ∈ l, (sv.svI.setDirect k 0).sfiDirect k' = sv.svI.sfiDirect k' := fun k' hk' =>
        Function.update_of_ne (fun e : k' = k => (List.nodup_cons.mp hm.nodup).1 (e ▸ hk')) 0 sv.svI.sfiDirect
      have hm₁ := hm.free hk.2 hother
      have hv₁ : ((s.setMark (sv.svI.sfiDirect k) false).modifySv i fun sv =>
        { sv with svI := sv.svI.setDirect k 0, svDirty := true }).vnode i =
          some { sv with svI := sv.svI.setDirect k 0, svDirty := true } := vnode_modifySv (fun _ => rfl) hv
      refine (ih hv₁ ⟨hm₁.nodup, hm₁.marked, hm₁.inj⟩).imp fun _ s' hs' => ?_
      obtain ⟨⟨sv', hv', hd⟩, hdisk, hf⟩ := hs'
      refine ⟨⟨sv', hv', ?_⟩, hdisk, ?_⟩
      · rw [hd]
        exact Inode.clearDirect_cons hk.1
      · have hf' : Frees (s.setMark (sv.svI.sfiDirect k) false) _ s' :=
          ⟨hf.super, hf.dBlocks, hf.lost, hf.calm, hf.cleared, hf.same⟩
        exact ((Frees.setMark s _).trans hf').congr (freed_cons hk hother)
    · rw [if_neg hk]
      refine (ih hv hm.tail).imp fun _ s' hs' => ?_
      obtain ⟨⟨sv', hv', hd⟩, hdisk, hf⟩ := hs'
      exact ⟨⟨sv', hv', hd.trans (Inode.clearDirect_skip hk)⟩, hdisk, hf.congr (freed_skip hk)⟩

/-! ## The indirect block -/

structure Scanned (L : Nat) (l : List Nat) (r r' : IdScan) : Prop where
  idbuf : ∀ j, r'.idbuf j = if j ∈ l ∧ L < sfsNdirect + j then 0 else r.idbuf j
  hasnonzero : r'.hasnonzero = true ↔ r.hasnonzero = true ∨ ∃ j ∈ l, ¬ L < sfsNdirect + j ∧ r.idbuf j ≠ 0
  iddirty : r'.iddirty = true ↔ r.iddirty = true ∨ ∃ j ∈ l, L < sfsNdirect + j ∧ r.idbuf j ≠ 0

theorem Scanned.remove {r r' : IdScan} {j : Nat} {l : List Nat} (hj : L < sfsNdirect + j)
    (h0 : r.idbuf j ≠ 0) (hjl : j ∉ l)
    (h : Scanned L l { r with idbuf := Function.update r.idbuf j 0, iddirty := true } r') :
    Scanned L (j :: l) r r' := by
  have hsame : ∀ k ∈ l, Function.update r.idbuf j 0 k = r.idbuf k := fun k hk =>
    Function.update_of_ne (fun e : k = j => hjl (e ▸ hk)) 0 r.idbuf
  constructor
  case idbuf =>
    intro k
    rw [h.idbuf]
    by_cases e : k = j
    · simp [e, hj]
    · simp [e]
  case hasnonzero =>
    rw [h.hasnonzero]
    refine or_congr_right ⟨fun ⟨k, hk, hL, hne⟩ => ?_, fun ⟨k, hk, hL, hne⟩ => ?_⟩
    · exact ⟨k, List.mem_cons_of_mem _ hk, hL, hsame k hk ▸ hne⟩
    · rcases List.mem_cons.mp hk with rfl | hk
      · exact absurd hj hL
      · exact ⟨k, hk, hL, (hsame k hk).trans_ne hne⟩
  case iddirty =>
    rw [h.iddirty]
    exact ⟨fun _ => Or.inr ⟨j, List.mem_cons_self, hj, h0⟩, fun _ => Or.inl rfl⟩

theorem Scanned.keep {r r' : IdScan} {j : Nat} {l : List Nat} (hj : ¬ (L < sfsNdirect + j ∧ r.idbuf j ≠ 0))
    (h : Scanned L l { r with hasnonzero := r.hasnonzero || r.idbuf j != 0 } r') : Scanned L (j :: l) r r' := by
  have hz : L < sfsNdirect + j → r.idbuf j = 0 := fun hL => by
    by_contra hne
    exact hj ⟨hL, hne⟩
  constructor
  case idbuf =>
    intro k
    rw [h.idbuf]
    by_cases e : k = j
    · by_cases hL : L < sfsNdirect + j
      · simp [e, hz hL]
      · simp [e, hL]
    · simp [e]
  case hasnonzero =>
    rw [h.hasnonzero]
    simp only [Bool.or_eq_true, bne_iff_ne, List.mem_cons, exists_eq_or_imp, or_assoc]
    refine or_congr_right (or_congr_left ⟨fun h0 => ⟨fun hL => h0 (hz hL), h0⟩, And.right⟩)
  case iddirty =>
    rw [h.iddirty]
    simp only [List.mem_cons, exists_eq_or_imp, hj, false_or]

theorem truncEntries_spec {l : List Nat} {r : IdScan} (hm : Marks s l r.idbuf) :
    wp (truncEntries L l r) (fun r' s' => Scanned L l r r' ∧ s'.sfsVnodes = s.sfsVnodes ∧ s'.disk = s.disk ∧
      Frees s (fun b => ∃ j ∈ l, L < sfsNdirect + j ∧ r.idbuf j = b ∧ b ≠ 0) s') E K s := by
  induction l generalizing s r with
  | nil =>
    exact ⟨⟨fun j => by simp, by simp, by simp⟩, rfl, rfl,
      .refl fun b hb => hb.elim fun k hk => absurd hk.1 List.not_mem_nil⟩
  | cons j l ih =>
    unfold truncEntries
    by_cases hj : L < sfsNdirect + j ∧ r.idbuf j ≠ 0
    · obtain ⟨hlt, hmark⟩ := hm.marked j List.mem_cons_self hj.2
      rw [if_pos hj, wp_bind, wp_bfree_marked hlt hmark]
      have hjl := (List.nodup_cons.mp hm.nodup).1
      have hother : ∀ k ∈ l, Function.update r.idbuf j 0 k = r.idbuf k := fun k hk =>
        Function.update_of_ne (fun e : k = j => hjl (e ▸ hk)) 0 r.idbuf
      refine (ih (hm.free hj.2 hother)).imp fun r' s' hs' => ?_
      obtain ⟨hscan, hvn, hdisk, hf⟩ := hs'
      exact ⟨hscan.remove hj.1 hj.2 hjl, hvn, hdisk, ((Frees.setMark s _).trans hf).congr (freed_cons hj hother)⟩
    · rw [if_neg hj]
      refine (ih (r := { r with hasnonzero := r.hasnonzero || r.idbuf j != 0 }) hm.tail).imp fun r' s' hs' => ?_
      obtain ⟨hscan, hvn, hdisk, hf⟩ := hs'
      exact ⟨hscan.keep hj, hvn, hdisk, hf.congr (freed_skip hj)⟩

def EntriesGone (L : Nat) (w : Nat → Nat) : Prop := ∀ j < sfsDbperidb, ¬ L < sfsNdirect + j → w j = 0

theorem truncIndirect_spec {idblock : Nat} {w : Nat → Nat} (hw : w = readWords (s.disk idblock))
    (hv : s.vnode i = some sv)
    (hid : sv.svI.sfiIndirect = idblock) (hdev : sectorOf idblock = idblock ∧ idblock < s.dBlocks) (hl : s.lost = [])
    (hidm : idblock < s.nbits ∧ s.sfsFreemap idblock = true)
    (hmarked : ∀ j < sfsDbperidb, w j ≠ 0 → w j < s.nbits ∧ s.sfsFreemap (w j) = true)
    (hinj : ∀ j < sfsDbperidb, ∀ k < sfsDbperidb, w j ≠ 0 → w j = w k → j = k)
    (hne : ∀ j < sfsDbperidb, w j ≠ idblock) :
    wp (truncIndirect i L idblock)
      (fun _ s' => ∃ sv', s'.vnode i = some sv' ∧ sv'.svI.sfiDirect = sv.svI.sfiDirect ∧
        ((EntriesGone L w ∧ sv'.svI.sfiIndirect = 0) ∨
          (¬ EntriesGone L w ∧ sv'.svI.sfiIndirect = idblock ∧
            ∀ j < sfsDbperidb, readWords (s'.disk idblock) j = if L < sfsNdirect + j then 0 else w j)) ∧
        Frees s (fun b => (∃ j < sfsDbperidb, L < sfsNdirect + j ∧ w j = b ∧ b ≠ 0) ∨
          (EntriesGone L w ∧ b = idblock)) s')
      (fun _ _ => s.faults ≠ []) (fun _ => False) s := by
  unfold truncIndirect
  rw [wp_bind]
  refine wp_rblock_any hdev (fun faults hcalm => ?_) fun hf _ => hf
  rw [wp_bind, ← hw]
  have hspec := truncEntries_spec (s := { s with faults := faults }) (L := L) (l := List.range sfsDbperidb)
    (r := { idbuf := w, hasnonzero := false, iddirty := false }) (E := fun _ _ => s.faults ≠ []) (K := fun _ => False)
    ⟨List.nodup_range, fun j hj => hmarked j (List.mem_range.mp hj),
      fun j hj k hk => hinj j (List.mem_range.mp hj) k (List.mem_range.mp hk)⟩
  refine hspec.imp ?_
  intro r s₁ ⟨hscan, hvn, hdisk, hf⟩
  have hv₁ : s₁.vnode i = some sv := by
    unfold Sfs.vnode
    rw [hvn]
    exact hv
  have hf₁ : Frees s (fun b => ∃ j < sfsDbperidb, L < sfsNdirect + j ∧ w j = b ∧ b ≠ 0) s₁ := by
    refine Frees.congr ⟨hf.super, hf.dBlocks, hf.lost, fun h => hf.calm (hcalm h), hf.cleared, hf.same⟩ fun b => ?_
    simp only [List.mem_range]
  have hgone : r.hasnonzero = false ↔ EntriesGone L w := by
    have hiff := hscan.hasnonzero
    simp only [Bool.false_eq_true, false_or, List.mem_range] at hiff
    rw [← Bool.not_eq_true, hiff]
    unfold EntriesGone
    push Not
    rfl
  have hidfree : ¬ ∃ j < sfsDbperidb, L < sfsNdirect + j ∧ w j = idblock ∧ idblock ≠ 0 :=
    fun ⟨j, hj, _, e, _⟩ => hne j hj e
  by_cases hn : r.hasnonzero = false
  · -- the indirect block is freed too
    obtain ⟨hlt, hmark⟩ := hf₁.marked hidm hidfree
    rw [if_pos hn, wp_bind, wp_bfree_marked hlt hmark, wp_modifySv]
    have hg := hgone.mp hn
    refine ⟨_, vnode_modifySv (fun _ => rfl) hv₁, rfl, Or.inl ⟨hg, rfl⟩, ?_⟩
    have hf₂ := hf₁.trans (Frees.setMark s₁ idblock)
    refine Frees.congr ⟨hf₂.super, hf₂.dBlocks, hf₂.lost, hf₂.calm, hf₂.cleared, hf₂.same⟩ fun b => ?_
    exact or_congr_right ⟨fun e => ⟨hg, e⟩, And.right⟩
  · have hg : ¬ EntriesGone L w := fun h => hn (hgone.mpr h)
    have hf₂ : Frees s (fun b => (∃ j < sfsDbperidb, L < sfsNdirect + j ∧ w j = b ∧ b ≠ 0) ∨
        (EntriesGone L w ∧ b = idblock)) s₁ :=
      hf₁.congr fun b => (or_iff_left fun h => hg h.1).symm
    have hbuf : ∀ j < sfsDbperidb, r.idbuf j = if L < sfsNdirect + j then 0 else w j := by
      intro j hj
      rw [hscan.idbuf]
      simp only [List.mem_range, hj, true_and]
    rw [if_neg hn]
    by_cases hd : r.iddirty = true
    · rw [if_pos hd]
      refine (wp_wblock (hf₁.lost.trans hl) (by rw [hf₁.dBlocks]; exact hdev)).mpr ?_
      refine ⟨sv, hv₁, rfl, Or.inr ⟨hg, hid, fun j hj => ?_⟩, ?_⟩
      · have hlt : r.idbuf j < 2 ^ 32 := by
          rw [hbuf j hj]
          split
          · decide
          · rw [hw]
            exact readWords_lt _ _
        have hblock : (s₁.write idblock (wordsBlock r.idbuf)).disk idblock = wordsBlock r.idbuf :=
          Function.update_self idblock _ s₁.disk
        rw [hblock, readWords_wordsBlock hj hlt, hbuf j hj]
      · exact ⟨hf₂.super, hf₂.dBlocks, hf₂.lost, hf₂.calm, hf₂.cleared, hf₂.same⟩
    · -- nothing has changed in the indirect block
      rw [if_neg hd, wp_pure]
      refine ⟨sv, hv₁, rfl, Or.inr ⟨hg, hid, fun j hj => ?_⟩, hf₂⟩
      have hsame : s₁.disk idblock = s.disk idblock := by rw [hdisk]
      rw [hsame, ← hw]
      split
      · rename_i hL
        by_contra h0
        exact hd (hscan.iddirty.mpr (Or.inr ⟨j, List.mem_range.mpr hj, hL, h0⟩))
      · rfl

/-! ## What is discarded -/

def highblock : Nat := sfsNdirect + sfsDbperidb - 1

def Discards (L n : Nat) : Prop := if n < sfsNdirect then L ≤ n else L < highblock ∧ L < n

instance (L n : Nat) : Decidable (Discards L n) := inferInstanceAs (Decidable (if n < sfsNdirect then L ≤ n else _))

def IndirectGoes (s : Sfs) (i L : Nat) : Prop :=
  L < highblock ∧ ∀ n < sfsMaxblocks, sfsNdirect ≤ n → ¬ L < n → s.ptr i n = 0

structure FileOwned (s : Sfs) (i : Nat) : Prop where
  loaded : ∃ sv, s.vnode i = some sv
  small : s.nblocks ≤ 2 ^ 22
  device : s.nblocks ≤ s.dBlocks
  lossless : s.lost = []
  block : ∀ n < sfsMaxblocks, s.ptr i n ≠ 0 → s.ptr i n < s.nblocks ∧ s.sfsFreemap (s.ptr i n) = true
  inj : ∀ n < sfsMaxblocks, ∀ m < sfsMaxblocks, s.ptr i n ≠ 0 → s.ptr i n = s.ptr i m → n = m
  indirect : (s.inode i).sfiIndirect ≠ 0 →
    (s.inode i).sfiIndirect < s.nblocks ∧ s.sfsFreemap (s.inode i).sfiIndirect = true
  apart : (s.inode i).sfiIndirect ≠ 0 → ∀ n < sfsMaxblocks, s.ptr i n ≠ (s.inode i).sfiIndirect

theorem Owned.fileOwned {own : Nat → BlockOwner} (h : Owned own s) (hv : s.vnode i = some sv) : FileOwned s i := by
  have hi := h.vnode_own hv
  have hmark : ∀ b, own b ≠ .system → own b ≠ .free → b < s.nblocks ∧ s.sfsFreemap b = true := fun b hs hf =>
    ⟨h.lt_nblocks hs, (h.marked b (h.lt_nbits hs)).mpr hf⟩
  refine ⟨⟨sv, hv⟩, h.small, h.device, h.lossless, fun n hn h0 => ?_, fun n hn m hm h0 e => ?_, fun h0 => ?_,
    fun h0 n hn e => ?_⟩
  · have hown := h.ptr_own hi hn h0
    exact hmark _ (by rw [hown]; simp) (by rw [hown]; simp)
  · have hown := h.ptr_own hi hn h0
    rw [e] at h0 hown
    rw [h.ptr_own hi hm h0] at hown
    injection hown with _ hnm
    exact hnm.symm
  · have hown := h.indirect_own hi h0
    exact hmark _ (by rw [hown]; simp) (by rw [hown]; simp)
  · have hown := h.indirect_own hi h0
    rw [← e] at hown h0
    rw [h.ptr_own hi hn h0] at hown
    cases hown

structure TruncEffect (s : Sfs) (i L : Nat) (s' : Sfs) : Prop where
  discarded : ∀ n < sfsMaxblocks, Discards L n → s'.ptr i n = 0
  kept : ∀ n < sfsMaxblocks, ¬ Discards L n → s'.ptr i n = s.ptr i n
  gone : IndirectGoes s i L → (s'.inode i).sfiIndirect = 0
  stays : ¬ IndirectGoes s i L → (s'.inode i).sfiIndirect = (s.inode i).sfiIndirect
  frees : Frees s (fun b => b ≠ 0 ∧ ((∃ n < sfsMaxblocks, Discards L n ∧ s.ptr i n = b) ∨
    (IndirectGoes s i L ∧ (s.inode i).sfiIndirect = b))) s'

structure IndirectEffect (s : Sfs) (i L : Nat) (s' : Sfs) : Prop where
  direct : ∀ k : Fin sfsNdirect, s'.ptr i k = s.ptr i k
  entry : ∀ n < sfsMaxblocks, sfsNdirect ≤ n → s'.ptr i n = if L < highblock ∧ L < n then 0 else s.ptr i n
  gone : IndirectGoes s i L → (s'.inode i).sfiIndirect = 0
  stays : ¬ IndirectGoes s i L → (s'.inode i).sfiIndirect = (s.inode i).sfiIndirect
  loaded : ∃ sv, s'.vnode i = some sv
  frees : Frees s (fun b => b ≠ 0 ∧ ((∃ n < sfsMaxblocks, sfsNdirect ≤ n ∧ (L < highblock ∧ L < n) ∧ s.ptr i n = b) ∨
    (IndirectGoes s i L ∧ (s.inode i).sfiIndirect = b))) s'

theorem IndirectEffect.refl (hv : s.vnode i = some sv) (h : ¬ (L < highblock ∧ sv.svI.sfiIndirect ≠ 0)) :
    IndirectEffect s i L s := by
  have hin := vnode_inode hv
  have hz : L < highblock → (s.inode i).sfiIndirect = 0 := by
    intro hL
    by_contra h0
    exact h ⟨hL, by rwa [← hin]⟩
  have hptr : L < highblock → ∀ n, sfsNdirect ≤ n → s.ptr i n = 0 := by
    intro hL n hn
    rw [Sfs.ptr, Inode.ptr, dif_neg (Nat.not_lt.mpr hn), if_pos (hz hL)]
  refine ⟨fun _ => rfl, fun n _ hn => ?_, fun hg => hz hg.1, fun _ => rfl, ⟨sv, hv⟩,
    .refl fun b hb => ?_⟩
  · split
    · rename_i hL
      exact hptr hL.1 n hn
    · rfl
  · obtain ⟨h0, ⟨n, -, hn, hL, e⟩ | ⟨hg, e⟩⟩ := hb
    · exact h0 (e.symm.trans (hptr hL.1 n hn))
    · exact h0 (e.symm.trans (hz hg.1))

theorem truncIndirect_effect (h : FileOwned s i) (hv : s.vnode i = some sv) (hL : L < highblock)
    (h0 : sv.svI.sfiIndirect ≠ 0) :
    wp (truncIndirect i L sv.svI.sfiIndirect) (fun _ s' => IndirectEffect s i L s') (fun _ _ => s.faults ≠ [])
      (fun _ => False) s := by
  have hin := vnode_inode hv
  have hnb : s.nblocks ≤ s.nbits := le_sfsBitmapsize _
  have hword : ∀ j, s.ptr i (sfsNdirect + j) = readWords (s.disk sv.svI.sfiIndirect) j := fun j => by
    rw [ptr_indirect hv, if_neg h0]
  have hmax : ∀ {j}, j < sfsDbperidb → sfsNdirect + j < sfsMaxblocks := fun hj => Nat.add_lt_add_left hj _
  have hmin := hin ▸ h.indirect
  obtain ⟨hidlt, hidm⟩ := hmin h0
  have hgone : EntriesGone L (readWords (s.disk sv.svI.sfiIndirect)) ↔ IndirectGoes s i L := by
    refine ⟨fun hg => ⟨hL, fun n hn hd hle => ?_⟩, fun hg j hj hle => ?_⟩
    · obtain ⟨j, rfl⟩ := Nat.exists_eq_add_of_le hd
      rw [hword]
      exact hg j (Nat.lt_of_add_lt_add_left hn) hle
    · rw [← hword]
      exact hg.2 _ (hmax hj) (Nat.le_add_right ..) hle
  have hsec : sectorOf sv.svI.sfiIndirect = sv.svI.sfiIndirect ∧ sv.svI.sfiIndirect < s.dBlocks :=
    ⟨sectorOf_of_lt (Nat.lt_of_lt_of_le hidlt h.small), Nat.lt_of_lt_of_le hidlt h.device⟩
  refine (truncIndirect_spec rfl hv rfl hsec h.lossless ⟨Nat.lt_of_lt_of_le hidlt hnb, hidm⟩ ?_ ?_ ?_).imp ?_
  · intro j hj hne
    rw [← hword] at hne ⊢
    obtain ⟨hlt, hm⟩ := h.block _ (hmax hj) hne
    exact ⟨Nat.lt_of_lt_of_le hlt hnb, hm⟩
  · intro j hj k hk hne e
    rw [← hword] at hne e
    rw [← hword] at e
    exact Nat.add_left_cancel (h.inj _ (hmax hj) _ (hmax hk) hne e)
  · intro j hj e
    rw [← hword] at e
    exact h.apart (by rwa [hin]) _ (hmax hj) (by rw [hin]; exact e)
  · intro _ s' ⟨sv', hv', hdir, hcase, hf⟩
    have hin' := vnode_inode hv'
    constructor
    case direct =>
      intro k
      rw [ptr_direct hv', ptr_direct hv, hdir]
    case entry =>
      intro n hn hd
      obtain ⟨j, rfl⟩ := Nat.exists_eq_add_of_le hd
      have hj := Nat.lt_of_add_lt_add_left hn
      rw [ptr_indirect hv', hword]
      rcases hcase with ⟨hg, hz⟩ | ⟨-, hid, hw⟩
      · rw [if_pos hz]
        split
        · rfl
        · rename_i hnot
          exact (hg j hj fun hlt => hnot ⟨hL, hlt⟩).symm
      · rw [hid, if_neg h0, hw j hj]
        simp only [hL, true_and]
    case gone =>
      intro hg
      rcases hcase with ⟨-, hz⟩ | ⟨hng, -⟩
      · rw [hin']
        exact hz
      · exact absurd (hgone.mpr hg) hng
    case stays =>
      intro hg
      rcases hcase with ⟨hg', -⟩ | ⟨-, hid, -⟩
      · exact absurd (hgone.mp hg') hg
      · rw [hin', hin, hid]
    case loaded => exact ⟨sv', hv'⟩
    case frees =>
      refine hf.congr fun b => ?_
      rw [hin]
      constructor
      · rintro (⟨j, hj, hlt, e, hb⟩ | ⟨hg, e⟩)
        · exact ⟨hb, Or.inl ⟨_, hmax hj, Nat.le_add_right .., ⟨hL, hlt⟩, (hword j).trans e⟩⟩
        · exact ⟨e ▸ h0, Or.inr ⟨hgone.mp hg, e.symm⟩⟩
      · rintro ⟨hb, ⟨n, hn, hd, ⟨-, hlt⟩, e⟩ | ⟨hg, e⟩⟩
        · obtain ⟨j, rfl⟩ := Nat.exists_eq_add_of_le hd
          exact Or.inl ⟨j, Nat.lt_of_add_lt_add_left hn, hlt, (hword j).symm.trans e, hb⟩
        · exact Or.inr ⟨hgone.mpr hg, e.symm⟩

structure DirectEffect (s : Sfs) (i L : Nat) (s' : Sfs) : Prop where
  owned : FileOwned s' i
  direct : ∀ n < sfsNdirect, s'.ptr i n = if L ≤ n then 0 else s.ptr i n
  entry : ∀ n, sfsNdirect ≤ n → s'.ptr i n = s.ptr i n
  indirect : (s'.inode i).sfiIndirect = (s.inode i).sfiIndirect
  frees : Frees s (fun b => b ≠ 0 ∧ ∃ n < sfsNdirect, L ≤ n ∧ s.ptr i n = b) s'

theorem sfsNdirect_lt {n : Nat} (hn : n < sfsNdirect) : n < sfsMaxblocks := Nat.lt_of_lt_of_le hn (Nat.le_add_right ..)

theorem truncDirect_effect (h : FileOwned s i) :
    wp (truncDirect i L (List.finRange sfsNdirect)) (fun _ s' => DirectEffect s i L s') E K s := by
  obtain ⟨sv, hv⟩ := h.loaded
  have hnb : s.nblocks ≤ s.nbits := le_sfsBitmapsize _
  have hdir := ptr_direct hv
  refine (truncDirect_spec hv ⟨List.nodup_finRange _, ?_, ?_⟩).imp ?_
  · intro k _ h0
    rw [← hdir] at h0 ⊢
    obtain ⟨hlt, hm⟩ := h.block k (direct_lt k) h0
    exact ⟨Nat.lt_of_lt_of_le hlt hnb, hm⟩
  · intro k _ k' _ h0 e
    rw [← hdir] at h0 e
    rw [← hdir] at e
    exact Fin.ext (h.inj k (direct_lt k) k' (direct_lt k') h0 e)
  · intro _ s' ⟨⟨sv', hv', hd⟩, hdisk, hf⟩
    have hid : sv'.svI.sfiIndirect = sv.svI.sfiIndirect := by rw [hd]; rfl
    have hind : (s'.inode i).sfiIndirect = (s.inode i).sfiIndirect := by
      rw [vnode_inode hv', vnode_inode hv, hid]
    have hdirect : ∀ n < sfsNdirect, s'.ptr i n = if L ≤ n then 0 else s.ptr i n := by
      intro n hn
      have := ptr_direct hv' ⟨n, hn⟩
      rw [this, hd, hdir ⟨n, hn⟩]
      simp [Inode.clearDirect]
    have hentry : ∀ n, sfsNdirect ≤ n → s'.ptr i n = s.ptr i n := by
      intro n hn
      obtain ⟨j, rfl⟩ := Nat.exists_eq_add_of_le hn
      rw [ptr_indirect hv', ptr_indirect hv, hid, hdisk]
    have hfrees : Frees s (fun b => b ≠ 0 ∧ ∃ n < sfsNdirect, L ≤ n ∧ s.ptr i n = b) s' := by
      refine hf.congr fun b => ⟨fun ⟨k, _, hk, e, h0⟩ => ?_, fun ⟨h0, n, hn, hL, e⟩ => ?_⟩
      · exact ⟨h0, k, k.isLt, hk, (hdir k).trans e⟩
      · exact ⟨⟨n, hn⟩, List.mem_finRange _, hL, (hdir ⟨n, hn⟩).symm.trans e, h0⟩
    have hnbl : s'.nblocks = s.nblocks := congrArg Super.spNblocks hf.super
    -- a block that is still mapped was mapped before and has not been freed
    have hptr : ∀ n, s'.ptr i n ≠ 0 → s'.ptr i n = s.ptr i n ∧ ¬ (n < sfsNdirect ∧ L ≤ n) := by
      intro n h0
      by_cases hn : n < sfsNdirect
      · rw [hdirect n hn] at h0 ⊢
        by_cases hL : L ≤ n
        · rw [if_pos hL] at h0
          exact absurd rfl h0
        · rw [if_neg hL]
          exact ⟨rfl, fun h => hL h.2⟩
      · exact ⟨hentry n (Nat.le_of_not_lt hn), fun h => hn h.1⟩
    refine ⟨⟨⟨sv', hv'⟩, by rw [hnbl]; exact h.small, ?_, hf.lost.trans h.lossless, ?_, ?_, ?_, ?_⟩,
      hdirect, hentry, hind, hfrees⟩
    · rw [hnbl, hf.dBlocks]
      exact h.device
    · intro n hn h0
      obtain ⟨e, hnot⟩ := hptr n h0
      rw [e] at h0 ⊢
      obtain ⟨hlt, hm⟩ := h.block n hn h0
      have hnf : ¬ (s.ptr i n ≠ 0 ∧ ∃ m < sfsNdirect, L ≤ m ∧ s.ptr i m = s.ptr i n) := by
        rintro ⟨-, m, hm', hL, e'⟩
        obtain rfl := h.inj n hn m (sfsNdirect_lt hm') h0 e'.symm
        exact hnot ⟨hm', hL⟩
      rw [hnbl, hfrees.same _ hnf]
      exact ⟨hlt, hm⟩
    · intro n hn m hm h0 e
      have hm0 : s'.ptr i m ≠ 0 := e ▸ h0
      rw [(hptr n h0).1, (hptr m hm0).1] at e
      exact h.inj n hn m hm ((hptr n h0).1 ▸ h0) e
    · intro h0
      rw [hind] at h0 ⊢
      obtain ⟨hlt, hm⟩ := h.indirect h0
      rw [hnbl, hfrees.same _ fun ⟨_, n, hn, _, e⟩ => h.apart h0 n (sfsNdirect_lt hn) e]
      exact ⟨hlt, hm⟩
    · intro h0 n hn e
      rw [hind] at h0 e
      have hn0 : s'.ptr i n ≠ 0 := e ▸ h0
      exact h.apart h0 n hn ((hptr n hn0).1.symm.trans e)

theorem DirectEffect.goes (h : DirectEffect s i L s') : IndirectGoes s' i L ↔ IndirectGoes s i L := by
  unfold IndirectGoes
  refine and_congr_right fun _ => forall_congr' fun n => forall_congr' fun _ => forall_congr' fun hn => ?_
  rw [h.entry n hn]

theorem DirectEffect.trans (h : DirectEffect s i L s') (h' : IndirectEffect s' i L s'') : TruncEffect s i L s'' := by
  have hdirect : ∀ n < sfsNdirect, s''.ptr i n = if L ≤ n then 0 else s.ptr i n := fun n hn => by
    rw [h'.direct ⟨n, hn⟩, h.direct n hn]
  constructor
  case discarded =>
    intro n hn hd
    unfold Discards at hd
    split at hd
    · rename_i hlt
      rw [hdirect n hlt, if_pos hd]
    · rename_i hge
      rw [h'.entry n hn (Nat.le_of_not_lt hge), if_pos hd]
  case kept =>
    intro n hn hd
    unfold Discards at hd
    split at hd
    · rename_i hlt
      rw [hdirect n hlt, if_neg hd]
    · rename_i hge
      rw [h'.entry n hn (Nat.le_of_not_lt hge), if_neg hd, h.entry n (Nat.le_of_not_lt hge)]
  case gone => exact fun hg => h'.gone (h.goes.mpr hg)
  case stays => exact fun hg => (h'.stays fun hg' => hg (h.goes.mp hg')).trans h.indirect
  case frees =>
    refine (h.frees.trans h'.frees).congr fun b => ?_
    rw [h.goes, h.indirect]
    constructor
    · rintro (⟨h0, n, hn, hL, e⟩ | ⟨h0, ⟨n, hn, hd, hL, e⟩ | hg⟩)
      · exact ⟨h0, Or.inl ⟨n, sfsNdirect_lt hn, by rw [Discards, if_pos hn]; exact hL, e⟩⟩
      · rw [h.entry n hd] at e
        exact ⟨h0, Or.inl ⟨n, hn, by rw [Discards, if_neg (Nat.not_lt.mpr hd)]; exact hL, e⟩⟩
      · exact ⟨h0, Or.inr hg⟩
    · rintro ⟨h0, ⟨n, hn, hd, e⟩ | hg⟩
      · unfold Discards at hd
        split at hd
        · rename_i hlt
          exact Or.inl ⟨h0, n, hlt, hd, e⟩
        · rename_i hge
          have hge := Nat.le_of_not_lt hge
          exact Or.inr ⟨h0, Or.inl ⟨n, hn, hge, hd, (h.entry n hge).trans e⟩⟩
      · exact Or.inr ⟨h0, Or.inr hg⟩

def SfsVnode.setSize (size : Nat) (sv : SfsVnode) : SfsVnode :=
  { sv with svI := { sv.svI with sfiSize := size }, svDirty := true }

theorem TruncEffect.setSize (h : TruncEffect s i L s') (hv : s'.vnode i = some sv) (size : Nat) :
    TruncEffect s i L (s'.modifySv i (SfsVnode.setSize size)) ∧
      ((s'.modifySv i (SfsVnode.setSize size)).inode i).sfiSize = size := by
  have hin : (s'.modifySv i (SfsVnode.setSize size)).inode i = { s'.inode i with sfiSize := size } := by
    rw [vnode_inode hv]
    exact inode_modifySv (fun _ => rfl) hv
  have hptr : ∀ n, (s'.modifySv i (SfsVnode.setSize size)).ptr i n = s'.ptr i n := fun n => by
    rw [Sfs.ptr, hin]
    rfl
  refine ⟨⟨fun n hn hd => (hptr n).trans (h.discarded n hn hd),
    fun n hn hd => (hptr n).trans (h.kept n hn hd), fun hg => ?_,
    fun hg => ?_, ⟨h.frees.super, h.frees.dBlocks, h.frees.lost, h.frees.calm, h.frees.cleared,
      h.frees.same⟩⟩, by rw [hin]⟩
  · rw [hin]
    exact h.gone hg
  · rw [hin]
    exact h.stays hg

theorem truncate_effect (h : FileOwned s i) (len : Int) :
    wp (sfsTruncate i len)
      (fun _ s' => TruncEffect s i (blocklen len) s' ∧ (s'.inode i).sfiSize = (len % 2 ^ 32).toNat)
      (fun _ _ => s.faults ≠ []) (fun _ => False) s := by
  unfold sfsTruncate
  rw [wp_bind]
  refine (truncDirect_effect h).imp ?_
  intro _ s₁ h₁
  obtain ⟨sv₁, hv₁⟩ := h₁.owned.loaded
  rw [wp_bind, wp_getSv hv₁]
  -- the last step from either branch
  have hlast : ∀ s₂, IndirectEffect s₁ i (blocklen len) s₂ → wp (modifySv i fun sv =>
      { sv with svI := { sv.svI with sfiSize := (len % 2 ^ 32).toNat }, svDirty := true })
      (fun _ s' => TruncEffect s i (blocklen len) s' ∧ (s'.inode i).sfiSize = (len % 2 ^ 32).toNat)
      (fun _ _ => s.faults ≠ []) (fun _ => False) s₂ := by
    intro s₂ h₂
    obtain ⟨sv₂, hv₂⟩ := h₂.loaded
    exact (h₁.trans h₂).setSize hv₂ _
  by_cases hc : blocklen len < sfsNdirect + sfsDbperidb - 1 ∧ sv₁.svI.sfiIndirect ≠ 0
  · rw [if_pos hc, wp_bind]
    exact (truncIndirect_effect h₁.owned hv₁ hc.1 hc.2).mono (fun _ s₂ h₂ => hlast s₂ h₂)
      (fun _ _ hf e => hf (h₁.frees.calm e)) fun _ h => h
  · rw [if_neg hc]
    exact hlast s₁ (.refl hv₁ hc)

/-! ## Exactly the blocks past the new end -/

def lenBlocks (len : Nat) : Nat := (len + (sfsBlocksize - 1)) / sfsBlocksize

/-- After `sfs_truncate` the file blocks from the new end on are unmapped and
free, the others and all other bits are as they were, and the indirect block
is free if none of its entries is left. -/
structure Truncated (s : Sfs) (i len : Nat) (s' : Sfs) : Prop where
  unmapped : ∀ n < sfsMaxblocks, lenBlocks len ≤ n → s'.ptr i n = 0
  freed : ∀ n < sfsMaxblocks, lenBlocks len ≤ n → s.ptr i n ≠ 0 → s'.sfsFreemap (s.ptr i n) = false
  kept : ∀ n < sfsMaxblocks, n < lenBlocks len → s'.ptr i n = s.ptr i n
  empty : (s.inode i).sfiIndirect ≠ 0 → (∀ n, sfsNdirect ≤ n → n < lenBlocks len → s.ptr i n = 0) →
    (s'.inode i).sfiIndirect = 0 ∧ s'.sfsFreemap (s.inode i).sfiIndirect = false
  nonempty : (∃ n, sfsNdirect ≤ n ∧ n < lenBlocks len ∧ s.ptr i n ≠ 0) →
    (s'.inode i).sfiIndirect = (s.inode i).sfiIndirect
  other : ∀ b, (∀ n < sfsMaxblocks, lenBlocks len ≤ n → s.ptr i n ≠ 0 → s.ptr i n ≠ b) →
    ((s.inode i).sfiIndirect ≠ 0 → (s.inode i).sfiIndirect = b →
      ∃ n, sfsNdirect ≤ n ∧ n < lenBlocks len ∧ s.ptr i n ≠ 0) → s'.sfsFreemap b = s.sfsFreemap b
  size : (s'.inode i).sfiSize = len

/-- The new end does not meet a mapped block of the indirect block, and an
indirect block that is not looked at has an entry before the new end. -/
structure TruncFits (s : Sfs) (i L : Nat) : Prop where
  boundary : sfsNdirect ≤ L → L ≤ highblock → s.ptr i L = 0
  skipped : highblock ≤ L → (s.inode i).sfiIndirect ≠ 0 → ∃ n, sfsNdirect ≤ n ∧ n < L ∧ s.ptr i n ≠ 0

theorem blocklen_eq {len : Nat} (h : len ≤ sfsMaxblocks * sfsBlocksize) : blocklen len = lenBlocks len := by
  have hmax : sfsMaxblocks * sfsBlocksize = 73216 := by decide
  have hwrap : wrapOff ((len : Int) + (sfsBlocksize - 1 : Nat)) = ((len + 511 : Nat) : Int) := by
    have hmod : (((len : Int) + (sfsBlocksize - 1 : Nat)) % 2 ^ 32).toNat = len + 511 := by
      rw [show sfsBlocksize - 1 = 511 from rfl]
      omega
    rw [wrapOff, hmod, toOff]
    omega
  unfold blocklen lenBlocks
  rw [hwrap, ← Int.ofNat_tdiv]
  rw [show sfsBlocksize = 512 from rfl]
  omega

theorem lenBlocks_le {len : Nat} (h : len ≤ sfsMaxblocks * sfsBlocksize) : lenBlocks len ≤ sfsMaxblocks := by
  have hmax : sfsMaxblocks * sfsBlocksize = 73216 := by decide
  have hblocks : sfsMaxblocks = 143 := by decide
  have hsize : sfsBlocksize = 512 := rfl
  unfold lenBlocks
  rw [hblocks, hsize]
  omega

theorem highblock_eq : highblock + 1 = sfsMaxblocks := by decide

theorem Discards.le {n : Nat} (h : Discards L n) : L ≤ n := by
  unfold Discards at h
  split at h
  · exact h
  · exact Nat.le_of_lt h.2

theorem eq_of_not_discards {n : Nat} (hn : n < sfsMaxblocks) (hL : L ≤ n) (h : ¬ Discards L n) :
    n = L ∧ sfsNdirect ≤ L ∧ L ≤ highblock := by
  have hh := highblock_eq
  unfold Discards at h
  split at h
  · exact absurd hL h
  · omega

section
variable {len : Nat} (he : TruncEffect s i (lenBlocks len) s')
include he

theorem TruncEffect.truncFits (ht : Truncated s i len s') : TruncFits s i (lenBlocks len) := by
  have hh := highblock_eq
  constructor
  case boundary =>
    intro hlo hhi
    have hkept := he.kept (lenBlocks len) (by omega) fun hd => by
      rw [Discards, if_neg (Nat.not_lt.mpr hlo)] at hd
      exact Nat.lt_irrefl _ hd.2
    rw [← hkept]
    exact ht.unmapped _ (by omega) (Nat.le_refl _)
  case skipped =>
    intro hhi h0
    by_contra hno
    have hz : ∀ n, sfsNdirect ≤ n → n < lenBlocks len → s.ptr i n = 0 := by
      intro n hn hlt
      by_contra hne
      exact hno ⟨n, hn, hlt, hne⟩
    have hstay := he.stays fun hg => absurd hg.1 (Nat.not_lt.mpr hhi)
    exact h0 (hstay.symm.trans (ht.empty h0 hz).1)

theorem TruncEffect.truncated (hlen : lenBlocks len ≤ sfsMaxblocks) (hs : (s'.inode i).sfiSize = len)
    (hf : TruncFits s i (lenBlocks len)) : Truncated s i len s' := by
  have hh := highblock_eq
  -- what is past the end and not discarded was not mapped
  have hpast : ∀ n < sfsMaxblocks, lenBlocks len ≤ n → ¬ Discards (lenBlocks len) n → s.ptr i n = 0 := by
    intro n hn hL hd
    obtain ⟨rfl, hlo, hhi⟩ := eq_of_not_discards hn hL hd
    exact hf.boundary hlo hhi
  have hgoes : (s.inode i).sfiIndirect ≠ 0 → (∀ n, sfsNdirect ≤ n → n < lenBlocks len → s.ptr i n = 0) →
      IndirectGoes s i (lenBlocks len) := by
    intro h0 hz
    have hlt : lenBlocks len < highblock := by
      by_contra hge
      obtain ⟨n, hn, hlt, hne⟩ := hf.skipped (Nat.le_of_not_lt hge) h0
      exact hne (hz n hn hlt)
    refine ⟨hlt, fun n hn hd hle => ?_⟩
    rcases Nat.lt_or_ge n (lenBlocks len) with hlt' | hge
    · exact hz n hd hlt'
    · refine hpast n hn hge fun hdis => ?_
      rw [Discards, if_neg (Nat.not_lt.mpr hd)] at hdis
      exact hle hdis.2
  have hnot : (∃ n, sfsNdirect ≤ n ∧ n < lenBlocks len ∧ s.ptr i n ≠ 0) → ¬ IndirectGoes s i (lenBlocks len) := by
    rintro ⟨n, hn, hlt, hne⟩ hg
    exact hne (hg.2 n (by omega) hn (by omega))
  constructor
  case unmapped =>
    intro n hn hL
    by_cases hd : Discards (lenBlocks len) n
    · exact he.discarded n hn hd
    · rw [he.kept n hn hd]
      exact hpast n hn hL hd
  case freed =>
    intro n hn hL hne
    have hd : Discards (lenBlocks len) n := by
      by_contra hd
      exact hne (hpast n hn hL hd)
    exact he.frees.cleared _ ⟨hne, Or.inl ⟨n, hn, hd, rfl⟩⟩
  case kept =>
    intro n hn hlt
    exact he.kept n hn fun hd => absurd hd.le (Nat.not_le.mpr hlt)
  case empty =>
    intro h0 hz
    have hg := hgoes h0 hz
    exact ⟨he.gone hg, he.frees.cleared _ ⟨h0, Or.inr ⟨hg, rfl⟩⟩⟩
  case nonempty => exact fun hn => he.stays (hnot hn)
  case other =>
    intro b hdata hind
    refine he.frees.same b ?_
    rintro ⟨h0, ⟨n, hn, hd, e⟩ | ⟨hg, e⟩⟩
    · exact hdata n hn hd.le (e ▸ h0) e
    · exact hnot (hind (e ▸ h0) e) hg
  case size => exact hs

end

theorem truncate_spec (h : FileOwned s i) (len : Nat) (hlen : len ≤ sfsMaxblocks * sfsBlocksize) :
    wp (sfsTruncate i len) (fun _ s' => Truncated s i len s' ↔ TruncFits s i (lenBlocks len)) (fun _ _ => s.faults ≠ [])
      (fun _ => False) s := by
  refine (truncate_effect h len).imp ?_
  intro _ s' ⟨he, hs⟩
  rw [blocklen_eq hlen] at he
  have hmax : sfsMaxblocks * sfsBlocksize = 73216 := by decide
  have hsize : (s'.inode i).sfiSize = len := by
    rw [hs]
    omega
  exact ⟨he.truncFits, he.truncated (lenBlocks_le hlen) hsize⟩

theorem truncate_returns (h : FileOwned s i) {len : Nat} (hlen : len ≤ sfsMaxblocks * sfsBlocksize)
    (hf : s.faults = []) :
    ∃ s', sfsTruncate i len s = .ok (.ok (), s') ∧ (Truncated s i len s' ↔ TruncFits s i (lenBlocks len)) := by
  have hspec := truncate_spec h len hlen
  unfold wp at hspec
  cases hr : sfsTruncate i len s with
  | error k =>
    rw [hr] at hspec
    exact hspec.elim
  | ok r =>
    obtain ⟨r, s'⟩ := r
    rw [hr] at hspec
    cases r with
    | error e => exact absurd hf hspec
    | ok u => exact ⟨s', rfl, hspec⟩

/-- `sfs_truncate` stops at no assertion, fails only with the device, and
discards the blocks past the new end and nothing else exactly if the new end
does not meet a mapped block of the indirect block and an indirect block that
is not looked at has an entry before the new end. -/
theorem truncate_past_end_iff (h : FileOwned s i) {len : Nat} (hlen : len ≤ sfsMaxblocks * sfsBlocksize) :
    (∀ k, sfsTruncate i len s ≠ .error k) ∧
      (s.faults = [] → ∃ s', sfsTruncate i len s = .ok (.ok (), s')) ∧
      ∀ s', sfsTruncate i len s = .ok (.ok (), s') → (Truncated s i len s' ↔ TruncFits s i (lenBlocks len)) := by
  have hspec := truncate_spec h len hlen
  unfold wp at hspec
  cases hr : sfsTruncate i len s with
  | error k =>
    rw [hr] at hspec
    exact hspec.elim
  | ok r =>
    obtain ⟨r, s'⟩ := r
    rw [hr] at hspec
    refine ⟨by simp, fun hf => ?_, fun s'' he => ?_⟩
    · obtain ⟨s'', he, -⟩ := truncate_returns h hlen hf
      exact ⟨s'', hr.symm.trans he⟩
    · cases he
      exact hspec

end

/-! ## A file with one block -/

def indirectFile (k b : Nat) : Sfs where
  disk := Function.update (fun _ => zeroBlock) 10 (wordsBlock (Function.update (fun _ => 0) k b))
  dBlocks := 1000
  dBlocksize := sfsBlocksize
  sfsSuper := { spMagic := sfsMagic, spNblocks := 1000, spVolname := [] }
  sfsSuperdirty := false
  sfsVnodes := [{
    svV := { vnRefcount := 1, vnOpencount := 1 }
    svI := { sfiSize := 73216, sfiType := sfsTypeFile, sfiLinkcount := 1, sfiDirect := fun _ => 0, sfiIndirect := 10 }
    svIno := 5
    svDirty := false }]
  sfsFreemap _ := true
  sfsFreemapdirty := false
  faults := []
  lost := []
  writes := 0

theorem indirectFile_ptr {k b n : Nat} (hb : b < 2 ^ 32) (hn : n < sfsMaxblocks) :
    (indirectFile k b).ptr 5 n = if n = sfsNdirect + k then b else 0 := by
  by_cases hd : n < sfsNdirect
  · rw [Sfs.ptr, Inode.ptr, dif_pos hd, if_neg (by omega)]
    rfl
  · obtain ⟨j, rfl⟩ := Nat.exists_eq_add_of_le (Nat.le_of_not_lt hd)
    have hj : j < sfsDbperidb := Nat.lt_of_add_lt_add_left hn
    have hlt : Function.update (fun _ => 0) k b j < 2 ^ 32 := by
      rw [Function.update_apply]
      split
      · exact hb
      · decide
    rw [ptr_indirect rfl, if_neg (by decide)]
    show readWords (wordsBlock (Function.update (fun _ => 0) k b)) j = _
    rw [readWords_wordsBlock hj hlt, Function.update_apply]
    simp only [Nat.add_left_cancel_iff]

theorem indirectFile_owned {k b : Nat} (hb : b < 1000) (hb' : b ≠ 10) : FileOwned (indirectFile k b) 5 := by
  have hptr : ∀ {n}, n < sfsMaxblocks → _ := fun hn => indirectFile_ptr (k := k) (b := b)
    (Nat.lt_trans hb (by decide)) hn
  refine ⟨⟨_, rfl⟩, show 1000 ≤ 2 ^ 22 by decide, Nat.le_refl _, rfl, fun n hn h0 => ⟨?_, rfl⟩,
    fun n hn m hm h0 e => ?_, fun _ => ⟨?_, rfl⟩, fun _ n hn => ?_⟩
  · rw [hptr hn] at h0 ⊢
    show _ < 1000
    split
    · exact hb
    · decide
  · rw [hptr hn] at h0 e
    rw [hptr hm] at e
    split at h0
    · rename_i hnk
      rw [if_pos hnk] at e
      split at e
      · rename_i hmk
        exact hnk.trans hmk.symm
      · exact absurd e h0
    · exact absurd rfl h0
  · show 10 < 1000
    decide
  · show _ ≠ 10
    rw [hptr hn]
    split
    · exact hb'
    · decide

theorem truncate_past_end_twenty : FileOwned (indirectFile 0 20) 5 ∧ ∃ s',
    sfsTruncate 5 (10240 : Nat) (indirectFile 0 20) = .ok (.ok (), s') ∧ Truncated (indirectFile 0 20) 5 10240 s' := by
  have hown := indirectFile_owned (k := 0) (b := 20) (by decide) (by decide)
  obtain ⟨-, hok, hiff⟩ := truncate_past_end_iff hown (show 10240 ≤ sfsMaxblocks * sfsBlocksize by decide)
  obtain ⟨s', he⟩ := hok rfl
  refine ⟨hown, s', he, (hiff s' he).mpr ⟨fun _ _ => ?_, fun hhi => absurd hhi (by decide)⟩⟩
  rw [indirectFile_ptr (by decide) (by decide)]
  decide

def CutBadly (k b len : Nat) : Prop :=
  FileOwned (indirectFile k b) 5 ∧ ∃ s', sfsTruncate 5 len (indirectFile k b) = .ok (.ok (), s') ∧
    ¬ Truncated (indirectFile k b) 5 len s'

theorem truncate_keeps_boundary : CutBadly 5 20 10240 ∧ CutBadly 127 20 72704 ∧ CutBadly 0 0 73216 := by
  have hbad : ∀ k b len, b < 1000 → b ≠ 10 → len ≤ sfsMaxblocks * sfsBlocksize →
      ¬ TruncFits (indirectFile k b) 5 (lenBlocks len) → CutBadly k b len := by
    intro k b len hb hb' hlen hfit
    have hown := indirectFile_owned (k := k) hb hb'
    obtain ⟨s', he, hiff⟩ := truncate_returns hown hlen rfl
    exact ⟨hown, s', he, fun ht => hfit (hiff.mp ht)⟩
  refine ⟨hbad 5 20 10240 (by decide) (by decide) (by decide) fun hf => ?_,
    hbad 127 20 72704 (by decide) (by decide) (by decide) fun hf => ?_,
    hbad 0 0 73216 (by decide) (by decide) (by decide) fun hf => ?_⟩
  · have h0 := hf.boundary (by decide) (by decide)
    rw [indirectFile_ptr (by decide) (by decide)] at h0
    exact absurd h0 (by decide)
  · have h0 := hf.boundary (by decide) (by decide)
    rw [indirectFile_ptr (by decide) (by decide)] at h0
    exact absurd h0 (by decide)
  · obtain ⟨n, -, hn, h0⟩ := hf.skipped (by decide) (by decide)
    rw [indirectFile_ptr (by decide) hn] at h0
    split at h0 <;> exact h0 rfl

end Os161
