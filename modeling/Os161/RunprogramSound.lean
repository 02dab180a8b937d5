import Mathlib.Algebra.BigOperators.Group.List.Basic
import Mathlib.Data.List.GetD
import Os161.AddrspaceSound
import Os161.Runprogram

/-!
# The arguments can be read back

The frame that `runprogram` and `sys_execv` build decodes to the list of
arguments. The terminators of the strings are not copied; they are the zeros
of the fresh stack.
-/

namespace Os161

open Bytes

variable {mem mem' : Mem} {a : CString} {args : List CString} {i loc sp x : Nat}

/-! ## Copying below `USERTOP` -/

theorem copycheckStop_eq {len : Nat} (hl : 0 < len) (h : x + len ≤ userTop) : copycheckStop x len = .ok len := by
  have ht : userTop = 2147483648 := rfl
  have htop : u32 (x + len - 1) = x + len - 1 := Nat.mod_eq_of_lt (by omega)
  simp only [copycheckStop, htop]
  rw [if_neg (show ¬ x + len = 0 by omega), if_neg (by omega), if_neg (by omega), if_neg (by omega)]

theorem copyout_eq {src : Mem} {len : Nat} (hl : 0 < len) (h : x + len ≤ userTop) :
    copyout mem src x len = (none, copyBytes mem x src 0 len) := by
  simp only [copyout, copycheckStop_eq hl h, ne_eq, not_true_eq_false, if_false]

theorem copyout_word {n : Nat} (h : x + 4 ≤ userTop) : (copyout mem (wordBytes n) x 4).2 = putBE mem x 4 n := by
  rw [copyout_eq (Nat.succ_pos 3) h]
  funext y
  simp only [copyBytes, putBE, wordBytes]
  by_cases hy : x ≤ y ∧ y < x + 4
  · rw [if_pos hy, if_pos hy, if_pos (by omega), show 0 + 4 - 1 - (0 + (y - x)) = x + 4 - 1 - y by omega]
  · rw [if_neg hy, if_neg hy]

theorem CString.byte_ne_zero (hi : i < strlen a) : a.byte i ≠ 0 := by
  intro hz
  have hget : a.chars.getD i 0 = a.chars[i] := List.getD_eq_getElem _ _ hi
  exact a.noNul (by rw [← hz, CString.byte, hget]; exact List.getElem_mem hi)

def putString (mem : Mem) (loc : Nat) (a : CString) : Mem :=
  fun x => if loc ≤ x ∧ x < loc + strlen a then a.byte (x - loc) else mem x

theorem copystrLoop_eq {n : Nat} (h : i + n ≤ strlen a) :
    copystrLoop loc a n i mem = (none, fun x => if loc + i ≤ x ∧ x < loc + i + n then a.byte (x - loc) else mem x) := by
  induction n generalizing i mem with
  | zero =>
    have hno : ∀ x, ¬ (loc + i ≤ x ∧ x < loc + i + 0) := fun x hx => by omega
    simp only [copystrLoop, hno, if_false]
  | succ n ih =>
    simp only [copystrLoop, CString.byte_ne_zero (show i < strlen a by omega), if_false,
      ih (show i + 1 + n ≤ _ by omega)]
    congr 1
    funext x
    by_cases hx : x = loc + i
    · subst hx
      rw [if_neg (by omega), if_pos (by omega), Function.update_self, Nat.add_sub_cancel_left]
    · rw [Function.update_of_ne hx]
      by_cases hr : loc + i ≤ x ∧ x < loc + i + (n + 1)
      · rw [if_pos hr, if_pos (by omega)]
      · rw [if_neg hr, if_neg (by omega)]

theorem copyoutstr_strlen (h : loc + strlen a ≤ userTop) :
    (copyoutstr mem a loc (strlen a)).2 = putString mem loc a := by
  unfold copyoutstr
  rcases Nat.eq_zero_or_pos (strlen a) with hz | hpos
  · -- the check fails, or nothing is copied
    have hput : putString mem loc a = mem := by
      funext x
      exact if_neg (by omega)
    rw [hput, hz]
    split
    · rfl
    · simp [copystr, copystrLoop]
  · simp only [copycheckStop_eq hpos h, copystr, Nat.min_self, copystrLoop_eq (i := 0) (Nat.le_of_eq (Nat.zero_add _))]
    rfl

/-! ## The loop over the arguments -/

def stringsSize (args : List CString) : Nat := (args.map fun a => strlen a + 1).sum

@[simp] theorem stringsSize_cons : stringsSize (a :: args) = strlen a + 1 + stringsSize args := by simp [stringsSize]

def StringAt (mem : Mem) (p : Nat) (a : CString) : Prop := ∀ k ≤ strlen a, mem (p + k) = a.byte k

def ArgsLaid (mem : Mem) (sp : Nat) : List CString → (i loc : Nat) → Prop
  | [], _, _ => True
  | a :: args, i, loc =>
    getBE mem (sp + 4 + 4 * i) 4 = loc ∧ StringAt mem loc a ∧ ArgsLaid mem sp args (i + 1) (loc + (strlen a + 1))

theorem ArgsLaid.congr (h : ArgsLaid mem sp args i loc)
    (hp : ∀ x, sp + 4 + 4 * i ≤ x → x < sp + 4 + 4 * (i + args.length) → mem' x = mem x)
    (hs : ∀ x, loc ≤ x → x < loc + stringsSize args → mem' x = mem x) : ArgsLaid mem' sp args i loc := by
  induction args generalizing i loc with
  | nil => trivial
  | cons a args ih =>
    obtain ⟨hw, ha, hl⟩ := h
    rw [List.length_cons] at hp
    rw [stringsSize_cons] at hs
    refine ⟨?_, fun k hk => ?_, ih hl (fun x h₁ h₂ => hp x (by omega) (by omega))
      fun x h₁ h₂ => hs x (by omega) (by omega)⟩
    · rw [← hw]
      exact getBE_congr fun x h₁ h₂ => hp x h₁ (by omega)
    · rw [hs _ (by omega) (by omega)]
      exact ha k hk

theorem copyoutArgs_laid (mem : Mem) (sp : Nat) (args : List CString) (i loc : Nat)
    (hlow : sp + 4 + 4 * (i + args.length) ≤ loc) (htop : loc + stringsSize args ≤ userTop)
    (hz : ∀ x, loc ≤ x → x < loc + stringsSize args → mem x = 0) :
    ∃ mem', copyoutArgs sp args i loc mem = (i + args.length, mem') ∧ ArgsLaid mem' sp args i loc ∧
      ∀ x, ¬ (sp + 4 + 4 * i ≤ x ∧ x < sp + 4 + 4 * (i + args.length)) →
        ¬ (loc ≤ x ∧ x < loc + stringsSize args) → mem' x = mem x := by
  have ht : userTop = 2147483648 := rfl
  induction args generalizing i loc mem with
  | nil => exact ⟨mem, rfl, trivial, fun _ _ _ => rfl⟩
  | cons a args ih =>
    rw [List.length_cons] at hlow
    rw [stringsSize_cons] at htop hz
    have hptr : u32 (sp + 4 + 4 * i) = sp + 4 + 4 * i := Nat.mod_eq_of_lt (by omega)
    have hnext : u32 (loc + (strlen a + 1)) = loc + (strlen a + 1) := Nat.mod_eq_of_lt (by omega)
    have hrest : ∀ x, loc + (strlen a + 1) ≤ x → x < loc + (strlen a + 1) + stringsSize args →
        putString (putBE mem (sp + 4 + 4 * i) 4 loc) loc a x = 0 := fun x h₁ h₂ => by
      rw [putString, if_neg (by omega), putBE_of_ge (by omega)]
      exact hz x (by omega) (by omega)
    obtain ⟨mem', he, hl, hframe⟩ := ih _ (i + 1) (loc + (strlen a + 1)) (by omega) (by omega) hrest
    refine ⟨mem', ?_, ⟨?_, fun k hk => ?_, hl⟩, fun x h₁ h₂ => ?_⟩
    · simp only [copyoutArgs, hptr, hnext, copyout_word (show sp + 4 + 4 * i + 4 ≤ userTop by omega),
        copyoutstr_strlen (show loc + strlen a ≤ userTop by omega), he, List.length_cons]
      congr 1
      omega
    · have hget : getBE (putBE mem (sp + 4 + 4 * i) 4 loc) (sp + 4 + 4 * i) 4 = loc := by
        rw [getBE_putBE]
        exact Nat.mod_eq_of_lt (by omega)
      rw [← hget]
      refine getBE_congr fun x h₁ h₂ => ?_
      rw [hframe x (by omega) (by omega), putString, if_neg (by omega)]
    · rw [hframe _ (by omega) (by omega), putString]
      by_cases hlt : k < strlen a
      · rw [if_pos (by omega), Nat.add_sub_cancel_left]
      · -- the terminator was there before
        rw [if_neg (by omega), putBE_of_ge (by omega), hz _ (by omega) (by omega)]
        exact (List.getD_eq_default _ _ (Nat.le_of_not_lt hlt)).symm
    · rw [List.length_cons] at h₁
      rw [stringsSize_cons] at h₂
      rw [hframe x (by omega) (by omega), putString, if_neg (by omega)]
      by_cases hx : x < sp + 4 + 4 * i
      · exact putBE_of_lt hx
      · exact putBE_of_ge (by omega)

/-! ## What the frame says -/

theorem alignStack_eq (n : Nat) : alignStack n = n / 8 * 8 := by
  induction n with
  | zero => rfl
  | succ n ih =>
    simp only [alignStack, ih]
    split <;> omega

def frameBytes (args : List CString) : Nat := 8 + (args.map fun a => strlen a + 5).sum

theorem frameBytes_eq (args : List CString) : frameBytes args = 8 + 4 * args.length + stringsSize args := by
  unfold frameBytes
  induction args with
  | nil => rfl
  | cons a args ih =>
    simp only [List.map_cons, List.sum_cons, List.length_cons, stringsSize_cons]
    omega

theorem stackFrameSize_eq (h : frameBytes args < 2 ^ 32) : stackFrameSize args = frameBytes args := by
  have hgen : ∀ (args : List CString) (n : Nat), n + (args.map fun a => strlen a + 5).sum < 2 ^ 32 →
      args.foldl (fun n a => u32 (n + (strlen a + 1 + 4))) n = n + (args.map fun a => strlen a + 5).sum := by
    intro args
    induction args with
    | nil => exact fun n _ => rfl
    | cons a args ih =>
      intro n hn
      simp only [List.map_cons, List.sum_cons] at hn
      have hu : u32 (n + (strlen a + 1 + 4)) = n + (strlen a + 5) := Nat.mod_eq_of_lt (by omega)
      simp only [List.foldl_cons, hu, List.map_cons, List.sum_cons]
      rw [ih _ (by omega)]
      omega
  exact hgen args 8 h

def frameRegions (mem : Mem) (sp : Nat) (args : List CString) : List (Nat × Nat) :=
  (sp, 4) :: (sp + 4, 4 * (args.length + 1)) ::
    args.zipIdx.map fun p => (getBE mem (sp + 4 + 4 * p.2) 4, strlen p.1 + 1)

structure ArgsAt (mem : Mem) (sp : Nat) (args : List CString) : Prop where
  argc : getBE mem sp 4 = args.length
  argv : ∀ i a, args[i]? = some a → StringAt mem (getBE mem (sp + 4 + 4 * i) 4) a
  null : getBE mem (sp + 4 + 4 * args.length) 4 = 0
  disjoint : (frameRegions mem sp args).Pairwise fun r r' => r.1 + r.2 ≤ r'.1
  below : ∀ r ∈ frameRegions mem sp args, r.1 + r.2 ≤ userTop

theorem ArgsLaid.argv (h : ArgsLaid mem sp args i loc) (j : Nat) (ha : args[j]? = some a) :
    StringAt mem (getBE mem (sp + 4 + 4 * (i + j)) 4) a := by
  induction args generalizing i j loc with
  | nil => simp at ha
  | cons b args ih =>
    obtain ⟨hw, hb, hl⟩ := h
    cases j with
    | zero =>
      obtain rfl : b = a := by simpa using ha
      rw [← hw] at hb
      exact hb
    | succ j =>
      have := ih hl j (by simpa using ha)
      rwa [show i + 1 + j = i + (j + 1) by omega] at this

theorem ArgsLaid.regions (h : ArgsLaid mem sp args i loc) :
    ((args.zipIdx i).map fun p => (getBE mem (sp + 4 + 4 * p.2) 4, strlen p.1 + 1)).Pairwise
        (fun r r' => r.1 + r.2 ≤ r'.1) ∧
      ∀ r ∈ (args.zipIdx i).map fun p => (getBE mem (sp + 4 + 4 * p.2) 4, strlen p.1 + 1),
        loc ≤ r.1 ∧ r.1 + r.2 ≤ loc + stringsSize args := by
  induction args generalizing i loc with
  | nil => simp
  | cons a args ih =>
    obtain ⟨hw, -, hl⟩ := h
    obtain ⟨hpair, hbound⟩ := ih hl
    simp only [List.zipIdx_cons, List.map_cons, List.pairwise_cons, List.mem_cons, stringsSize_cons, hw]
    refine ⟨⟨fun r hr => ?_, hpair⟩, fun r hr => ?_⟩
    · have := (hbound r hr).1
      omega
    · rcases hr with rfl | hr
      · omega
      · have := hbound r hr
        omega

theorem argumentFrame_argsAt (mem : Mem) (args : List CString) (hsize : frameBytes args ≤ userTop)
    (hz : ∀ x, (userTop - frameBytes args) / 8 * 8 ≤ x → x < userTop → mem x = 0) :
    (argumentFrame mem userTop args).stackptr = (userTop - frameBytes args) / 8 * 8 ∧
      ArgsAt (argumentFrame mem userTop args).mem ((userTop - frameBytes args) / 8 * 8) args := by
  have ht : userTop = 2147483648 := rfl
  have hlow : u32 (userTop + 2 ^ 32 - frameBytes args) = userTop - frameBytes args := by
    unfold u32
    omega
  have hsp : alignStack (u32 (userTop + 2 ^ 32 - stackFrameSize args)) = (userTop - frameBytes args) / 8 * 8 := by
    rw [stackFrameSize_eq (by omega), hlow, alignStack_eq]
  have hbytes := frameBytes_eq args
  refine ⟨hsp, ?_⟩
  generalize hg : (userTop - frameBytes args) / 8 * 8 = sp at *
  have hend : sp + frameBytes args ≤ userTop := by omega
  have hloc : u32 (sp + 4 + (args.length + 1) * 4) = sp + 8 + 4 * args.length := by
    unfold u32
    omega
  have hnull : u32 (sp + 4 + 4 * args.length) = sp + 4 + 4 * args.length := Nat.mod_eq_of_lt (by omega)
  obtain ⟨mem', he, hl, hframe⟩ := copyoutArgs_laid (putBE mem sp 4 args.length) sp args 0
    (sp + 8 + 4 * args.length) (by omega) (by omega)
    fun x h₁ h₂ => by rw [putBE_of_ge (by omega)]; exact hz x (by omega) (by omega)
  rw [Nat.zero_add] at he hframe
  have hfinal : (argumentFrame mem userTop args).mem = putBE mem' (sp + 4 + 4 * args.length) 4 0 := by
    simp only [argumentFrame, hsp, hloc, copyout_word (show sp + 4 ≤ userTop by omega), he, hnull,
      copyout_word (show sp + 4 + 4 * args.length + 4 ≤ userTop by omega)]
  rw [hfinal]
  have hl' : ArgsLaid (putBE mem' (sp + 4 + 4 * args.length) 4 0) sp args 0 (sp + 8 + 4 * args.length) := hl.congr
    (fun x _ h₂ => putBE_of_lt (by omega)) fun x h₁ _ => putBE_of_ge (by omega)
  obtain ⟨hpair, hbound⟩ := hl'.regions
  refine ⟨?_, fun i a ha => ?_, ?_, ?_, ?_⟩
  · have hargc : getBE (putBE mem sp 4 args.length) sp 4 = args.length := by
      rw [getBE_putBE]
      exact Nat.mod_eq_of_lt (by omega)
    rw [← hargc]
    refine getBE_congr fun x h₁ h₂ => ?_
    rw [putBE_of_lt (by omega), hframe x (by omega) (by omega)]
  · have := hl'.argv i ha
    rwa [Nat.zero_add] at this
  · rw [getBE_putBE, Nat.zero_mod]
  · refine List.pairwise_cons.mpr ⟨fun r hr => ?_, List.pairwise_cons.mpr ⟨fun r hr => ?_, hpair⟩⟩
    · rcases List.mem_cons.mp hr with rfl | hr
      · exact Nat.le_refl _
      · have := (hbound r hr).1
        omega
    · have := (hbound r hr).1
      omega
  · intro r hr
    rcases List.mem_cons.mp hr with rfl | hr
    · omega
    · rcases List.mem_cons.mp hr with rfl | hr
      · omega
      · have := (hbound r hr).2
        omega

theorem inSegment_stack (block : Nat) :
    inSegment (stackSegment block) x = true ↔ userTop - dumbvmStackpages * pageSize ≤ x ∧ x < userTop := by
  have hend : u32 (userTop - dumbvmStackpages * pageSize + dumbvmStackpages * pageSize) = userTop := rfl
  rw [inSegment, stackSegment, hend, Bool.and_eq_true, decide_eq_true_eq, decide_eq_true_eq]

theorem checkArgs_ok {xs : List (Bool × CString)} (h : ∀ x ∈ xs, x.1 = true ∧ 1 ≤ strlen x.2) :
    checkArgs xs = .ok () := by
  induction xs with
  | nil => rfl
  | cons x xs ih =>
    obtain ⟨valid, a⟩ := x
    obtain ⟨hv, ha⟩ := h _ (List.mem_cons_self ..)
    dsimp only at hv ha
    rw [checkArgs, hv, if_neg (by simp), if_neg (by omega)]
    exact ih fun x hx => h x (List.mem_cons_of_mem _ hx)

/-- Whatever strings fit into the stack can be read back from the frame.
`sys_execv` builds the same frame of what it accepts, and it accepts up to 16
strings that are not empty at valid addresses. -/
theorem arguments_round_trip (as : AddrSpace) (pds : PdPtr → PageDetail) (block : Nat)
    (hfit : (frameBytes args + 7) / 8 * 8 ≤ dumbvmStackpages * pageSize)
    (hz : ∀ x, inSegment (stackSegment block) x = true → mem x = 0) :
    let stackptr := (asDefineStack as pds block).1
    let r := runprogramArgs mem stackptr args
    r.stackptr % 8 = 0 ∧ inSegment (stackSegment block) r.stackptr = true ∧ ArgsAt r.mem r.stackptr args ∧
      ∀ valid progname xs, xs.map Prod.snd = args →
        (∀ r', sysExecvArgs mem stackptr valid progname xs = .ok r' → r' = r) ∧
        (valid = true → 1 ≤ strlen progname → xs.length ≤ 16 → (∀ x ∈ xs, x.1 = true ∧ 1 ≤ strlen x.2) →
          sysExecvArgs mem stackptr valid progname xs = .ok r) := by
  have ht : userTop = 2147483648 := rfl
  have hs : dumbvmStackpages * pageSize = 49152 := rfl
  have hpos : 8 ≤ frameBytes args := Nat.le_add_right _ _
  obtain ⟨hsp, hargs⟩ := argumentFrame_argsAt mem args (by omega) fun x h₁ h₂ =>
    hz x ((inSegment_stack block).mpr (by omega))
  have hstack : (asDefineStack as pds block).1 = userTop := rfl
  simp only [runprogramArgs, hstack, hsp]
  refine ⟨by omega, (inSegment_stack block).mpr (by omega), hargs, fun valid progname xs hxs => ⟨fun r' he => ?_,
    fun hv hp hn hx => ?_⟩⟩
  · simp only [sysExecvArgs] at he
    split at he
    · cases he
    split at he
    · cases he
    split at he
    · cases he
    cases hc : checkArgs xs with
    | error e =>
      rw [hc] at he
      cases he
    | ok u =>
      rw [hc, hxs] at he
      exact (Except.ok.inj he).symm
  · rw [sysExecvArgs, if_neg (by simp [hv]), if_neg (by omega), if_neg (by omega), checkArgs_ok hx, hxs]
    rfl

def lsArgs : List CString := [⟨[108, 115], by decide⟩, ⟨[45, 108], by decide⟩]

theorem arguments_round_trip_ls :
    ArgsAt (runprogramArgs (fun _ => 0) userTop lsArgs).mem
    (runprogramArgs (fun _ => 0) userTop lsArgs).stackptr lsArgs ∧
      sysExecvArgs (fun _ => 0) userTop true ⟨[108, 115], by decide⟩ (lsArgs.map (true, ·)) =
        .ok (runprogramArgs (fun _ => 0) userTop lsArgs) := by
  obtain ⟨-, -, hargs, hexec⟩ := @arguments_round_trip (fun _ => 0) lsArgs (asCreate emptySegment)
    (fun _ => ptEntry emptySegment 0) 0 (by decide) fun _ _ => rfl
  exact ⟨hargs, (hexec true _ (lsArgs.map (true, ·)) rfl).2 rfl (by decide) (by decide) (by decide)⟩

end Os161
