import Os161.Stoplight
import Os161.Lib.Outcome

/-!
# The intersection is free of deadlock

A car that waits for a quadrant holds at most the quadrant before it, so a
circular wait needs four cars, and `limit` admits three. A car sleeps on
`queue4` only while three cars are admitted or on their way in or out.
-/

namespace Os161

open Outcome Tally

/-! ## What a car has done -/

def toggled (on off : Instr) (done : List Instr) : Bool :=
  done.foldl (fun b a => if a = on then true else if a = off then false else b) false

theorem toggled_concat (on off a : Instr) (done : List Instr) :
    toggled on off (done ++ [a]) = if a = on then true else if a = off then false else toggled on off done := by
  simp [toggled]

def Car.done (c : Car) : List Instr := (approachintersection c.plan).take c.pos

def Car.holds (c : Car) (l : StopLock) : Bool :=
  toggled (.acquire l) (.release l) c.done && decide (c.mode ≠ .asleep l) && decide (c.mode ≠ .woken l)

def Car.marks (c : Car) (q : Quadrant) : Bool := toggled (.enter (.quad q)) (.leave (.quad q)) c.done

def Car.occupies (c : Car) (q : Quadrant) : Bool := toggled (.enter (.quad q)) (.release (.quad q)) c.done

def Car.admitted (c : Car) : Bool := toggled (.enter .temp) (.leave .temp) c.done

def Car.contends (c : Car) : Bool :=
  decide (c.mode ≠ .asleep .temp) &&
    (decide (c.instr = some (.await .temp)) || decide (c.instr = some (.enter .temp)) ||
      decide (c.instr = some (.signal .temp)))

def Car.advance (c : Car) : Car := { c with pos := c.pos + 1 }

theorem Car.done_advance {c : Car} {a : Instr} (h : c.instr = some a) : c.advance.done = c.done ++ [a] := by
  have hget : (approachintersection c.plan)[c.pos]? = some a := h
  simp only [Car.done, Car.advance, List.take_add_one, hget, Option.toList_some]

/-! ## The twelve lists of instructions -/

def Quadrant.before : Quadrant → Quadrant
  | .nw => .ne
  | .ne => .se
  | .se => .sw
  | .sw => .nw

theorem approach_length (p : Plan) : (approachintersection p).length ≤ 26 := by
  revert p
  decide

def Instr.uses (l : StopLock) (a : Instr) : Bool :=
  a = .release l || a = .await l || a = .enter l || a = .leave l || a = .signal l

def Car.presence (c : Car) : Nat := c.admitted.toNat + c.contends.toNat

variable {p : Plan} {k : Nat} {l l' : StopLock} {q q' : Quadrant} {a : Instr}

variable {n : Nat} {c d : Car} {s s' : Stoplight n} {i j w : Fin n} {slack slack' : Nat}

def Car.OnRoad (c : Car) : Prop := c.pos ≤ (approachintersection c.plan).length

def doneAt (p : Plan) (k : Nat) (on off : Instr) : Bool := toggled on off ((approachintersection p).take k)

structure RoadMap : Prop where
  acquire : ∀ p, ∀ k < 27, ∀ l, (approachintersection p)[k]? = some (.acquire l) →
    doneAt p k (.acquire l) (.release l) = false
  uses : ∀ p, ∀ k < 27, ∀ l, (approachintersection p)[k]?.any (Instr.uses l) = true →
    doneAt p k (.acquire l) (.release l) = true
  temp : ∀ p, ∀ k < 27, doneAt p k (.acquire .temp) (.release .temp) = true →
    (approachintersection p)[k]? ≠ none ∧ ∀ l, (approachintersection p)[k]? ≠ some (.acquire l)
  before : ∀ p, ∀ k < 27, ∀ q, (approachintersection p)[k]? = some (.acquire (.quad q)) → ∀ l,
    doneAt p k (.acquire l) (.release l) = true → l = .quad q.before
  quad : ∀ p, ∀ k < 27, ∀ q, doneAt p k (.acquire (.quad q)) (.release (.quad q)) = true →
    doneAt p k (.enter .temp) (.leave .temp) = true ∧ (approachintersection p)[k]? ≠ none
  admitted : ∀ p, ∀ k < 27, doneAt p k (.enter .temp) (.leave .temp) = true → (approachintersection p)[k]? ≠ none
  marks : ∀ p, ∀ k < 27, ∀ q, doneAt p k (.enter (.quad q)) (.leave (.quad q)) = true →
    doneAt p k (.acquire (.quad q)) (.release (.quad q)) = true
  occupies : ∀ p, ∀ k < 27, ∀ q, doneAt p k (.enter (.quad q)) (.release (.quad q)) = true →
    doneAt p k (.acquire (.quad q)) (.release (.quad q)) = true
  await : ∀ p, ∀ k < 27, ∀ q, (approachintersection p)[k]? = some (.await (.quad q)) →
    doneAt p k (.enter (.quad q)) (.leave (.quad q)) = false
  gate : ∀ p, ∀ k < 27, (approachintersection p)[k]? = some (.await .temp) →
    doneAt p k (.enter .temp) (.leave .temp) = false ∧ (∀ q, doneAt p k (.enter (.quad q)) (.leave (.quad q)) = false) ∧
      ∀ q, doneAt p k (.enter (.quad q)) (.release (.quad q)) = false
  enter : ∀ p, ∀ k < 27, (approachintersection p)[k]? = some (.enter .temp) →
    doneAt p k (.enter .temp) (.leave .temp) = false
  leave : ∀ p, ∀ k < 27, (approachintersection p)[k]? = some (.leave .temp) →
    doneAt p k (.enter .temp) (.leave .temp) = true
  next : ∀ p, ∀ k < 27, (approachintersection p)[k + 1]? = some (.enter .temp) →
    (approachintersection p)[k]? = some (.await .temp)
  presence : ∀ p, ∀ k < 27, Car.presence { plan := p, pos := k, mode := .awake } ≤
    Car.presence { plan := p, pos := k + 1, mode := .awake } +
      if (approachintersection p)[k]? = some (.signal .temp) then 1 else 0

theorem roadMap : RoadMap where
  acquire := by decide +kernel
  uses := by decide +kernel
  temp := by decide +kernel
  before := by decide +kernel
  quad := by decide +kernel
  admitted := by decide +kernel
  marks := by decide +kernel
  occupies := by decide +kernel
  await := by decide +kernel
  gate := by decide +kernel
  enter := by decide +kernel
  leave := by decide +kernel
  next := by decide +kernel
  presence := by decide +kernel

/-! ## The invariant -/

/-- `slack` is how many more cars are admitted or contending than are needed
to keep the sleepers asleep. -/
structure Stoplight.Ok (slack : Nat) (s : Stoplight n) : Prop where
  road : ∀ i, (s.cars i).OnRoad
  mode : ∀ i l, (s.cars i).mode = .asleep l ∨ (s.cars i).mode = .woken l →
    l = .temp ∧ (s.cars i).instr = some (.await .temp)
  holder : ∀ l i, s.holder l = some i ↔ (s.cars i).holds l = true
  mark : ∀ q, s.mark q = 1 → ∃ i, (s.cars i).marks q = true
  limit : s.limit = tally (fun c => c.admitted.toNat) s.cars
  range : s.limit ≤ 3
  gate : ∀ i, (s.cars i).instr = some (.enter .temp) → s.limit ≤ 2
  quad : ∀ q, s.count (.quad q) = 0
  queue : ∀ i, i ∈ s.queue .temp ↔ (s.cars i).mode = .asleep .temp
  nodup : (s.queue .temp).Nodup
  count : s.count .temp = (s.queue .temp).length
  wake : s.queue .temp ≠ [] → 3 + slack ≤ tally Car.presence s.cars

/-! ## What a car can rely on -/

theorem Car.OnRoad.lt (h : c.OnRoad) : c.pos < 27 := Nat.lt_succ_of_le (h.trans (approach_length c.plan))

theorem Car.onRoad_of_instr (h : c.instr = some a) : c.OnRoad := by
  obtain ⟨hlt, -⟩ := List.getElem?_eq_some_iff.mp (show (approachintersection c.plan)[c.pos]? = some a from h)
  exact Nat.le_of_lt hlt

theorem Car.onRoad_advance (h : c.instr = some a) : c.advance.OnRoad := by
  obtain ⟨hlt, -⟩ := List.getElem?_eq_some_iff.mp (show (approachintersection c.plan)[c.pos]? = some a from h)
  exact hlt

theorem Car.holds_of_awake (h : c.mode = .awake) : c.holds l = toggled (.acquire l) (.release l) c.done := by
  simp [Car.holds, h]

theorem Car.holds_done (h : c.holds l = true) : toggled (.acquire l) (.release l) c.done = true := by
  simp only [Car.holds, Bool.and_eq_true] at h
  exact h.1.1

theorem Car.holds_withMode (hl : l ≠ .temp) :
    Car.holds { c with mode := .asleep .temp } l = toggled (.acquire l) (.release l) c.done := by
  simp [Car.holds, Car.done, Ne.symm hl]

theorem Car.holds_of_uses (hm : c.mode = .awake) (h : c.instr = some a) (ha : a.uses l = true) : c.holds l = true := by
  rw [Car.holds_of_awake hm]
  apply roadMap.uses c.plan c.pos (Car.onRoad_of_instr h).lt l
  rw [show (approachintersection c.plan)[c.pos]? = some a from h]
  exact ha

theorem Car.of_holds_temp (hr : c.OnRoad) (h : c.holds .temp = true) :
    ∃ a, c.instr = some a ∧ ∀ l, a ≠ .acquire l := by
  have ht := roadMap.temp c.plan c.pos hr.lt (Car.holds_done h)
  obtain ⟨a, ha⟩ := Option.ne_none_iff_exists'.mp ht.1
  refine ⟨a, ha, ?_⟩
  intro l hal
  exact ht.2 l (ha.trans (congrArg some hal))

theorem Car.holds_before (h : c.instr = some (.acquire (.quad q))) (hl : c.holds l = true) : l = .quad q.before :=
  roadMap.before c.plan c.pos (Car.onRoad_of_instr h).lt q h l (Car.holds_done hl)

theorem Car.of_holds_quad (hr : c.OnRoad) (h : c.holds (.quad q) = true) : c.admitted = true ∧ c.instr ≠ none :=
  roadMap.quad c.plan c.pos hr.lt q (Car.holds_done h)

theorem Car.instr_of_admitted (hr : c.OnRoad) (h : c.admitted = true) : c.instr ≠ none :=
  roadMap.admitted c.plan c.pos hr.lt h

theorem Car.holds_of_marks (hr : c.OnRoad) (hm : c.mode = .awake) (h : c.marks q = true) :
    c.holds (.quad q) = true := by
  rw [Car.holds_of_awake hm]
  exact roadMap.marks c.plan c.pos hr.lt q h

theorem Car.holds_of_occupies (hr : c.OnRoad) (hm : c.mode = .awake) (h : c.occupies q = true) :
    c.holds (.quad q) = true := by
  rw [Car.holds_of_awake hm]
  exact roadMap.occupies c.plan c.pos hr.lt q h

theorem Car.not_marks_of_await (h : c.instr = some (.await (.quad q))) : c.marks q = false :=
  roadMap.await c.plan c.pos (Car.onRoad_of_instr h).lt q h

theorem Car.of_await_temp (h : c.instr = some (.await .temp)) :
    c.admitted = false ∧ (∀ q, c.marks q = false) ∧ ∀ q, c.occupies q = false :=
  roadMap.gate c.plan c.pos (Car.onRoad_of_instr h).lt h

theorem Car.not_admitted_of_enter (h : c.instr = some (.enter .temp)) : c.admitted = false :=
  roadMap.enter c.plan c.pos (Car.onRoad_of_instr h).lt h

theorem Car.admitted_of_leave (h : c.instr = some (.leave .temp)) : c.admitted = true :=
  roadMap.leave c.plan c.pos (Car.onRoad_of_instr h).lt h

theorem Car.await_of_advance (h : c.advance.instr = some (.enter .temp)) (ha : c.instr = some a) :
    a = .await .temp := by
  have ht := roadMap.next c.plan c.pos (Car.onRoad_of_instr ha).lt h
  exact Option.some.inj (ha.symm.trans ht)

theorem Car.presence_advance (hm : c.mode = .awake) (h : c.instr = some a) :
    c.presence ≤ c.advance.presence + if a = .signal .temp then 1 else 0 := by
  have ht := roadMap.presence c.plan c.pos (Car.onRoad_of_instr h).lt
  obtain ⟨plan, pos, mode⟩ := c
  subst hm
  rw [show (approachintersection plan)[pos]? = some a from h] at ht
  simpa [Car.advance] using ht

theorem Car.holds_advance (hm : c.mode = .awake) (h : c.instr = some a) :
    c.advance.holds l = if a = .acquire l then true else if a = .release l then false else c.holds l := by
  rw [Car.holds_of_awake (show c.advance.mode = .awake from hm), Car.done_advance h, toggled_concat,
    Car.holds_of_awake hm]

theorem Car.marks_advance (h : c.instr = some a) :
    c.advance.marks q = if a = .enter (.quad q) then true else if a = .leave (.quad q) then false else c.marks q := by
  rw [Car.marks, Car.done_advance h, toggled_concat, Car.marks]

theorem Car.admitted_advance (h : c.instr = some a) :
    c.advance.admitted = if a = .enter .temp then true else if a = .leave .temp then false else c.admitted := by
  rw [Car.admitted, Car.done_advance h, toggled_concat, Car.admitted]

/-! ## The invariant holds at the start and is kept -/

theorem Stoplight.Ok.start (plan : Fin n → Plan) : (Stoplight.start plan).Ok 0 where
  road i := Nat.zero_le _
  mode i l h := by rcases h with h | h <;> cases h
  holder l i := by simp [Stoplight.start, Car.holds, Car.done, toggled]
  mark q h := absurd h (by simp [Stoplight.start])
  limit := by simp [Stoplight.start, tally, Car.admitted, Car.done, toggled]
  range := by simp [Stoplight.start]
  gate i h := by simp [Stoplight.start]
  quad q := rfl
  queue i := by simp [Stoplight.start]
  nodup := List.nodup_nil
  count := rfl
  wake h := absurd rfl h

theorem Stoplight.Ok.holder_unique (h : s.Ok slack) (hi : (s.cars i).holds l = true) (hj : (s.cars j).holds l = true) :
    i = j :=
  Option.some.inj (((h.holder l i).mpr hi).symm.trans ((h.holder l j).mpr hj))

theorem Stoplight.Ok.limit_nonneg (h : s.Ok slack) : 0 ≤ s.limit := by
  rw [h.limit]
  exact Int.natCast_nonneg _

theorem Stoplight.Ok.awake_of_enter (h : s.Ok slack) (hj : (s.cars j).instr = some (.enter .temp)) :
    (s.cars j).mode = .awake := by
  cases hm : (s.cars j).mode with
  | awake => rfl
  | asleep l => rw [(h.mode j l (Or.inl hm)).2] at hj; cases hj
  | woken l => rw [(h.mode j l (Or.inr hm)).2] at hj; cases hj

structure CarStep (s s' : Stoplight n) (i : Fin n) (d : Car) : Prop where
  cars : s'.cars = Function.update s.cars i d
  road : d.OnRoad
  holder : ∀ l, (s'.holder l = some i ↔ d.holds l = true) ∧ ∀ j, j ≠ i → (s'.holder l = some j ↔ s.holder l = some j)
  mark : ∀ q, s'.mark q = 1 → d.marks q = true ∨ (s.mark q = 1 ∧ ((s.cars i).marks q = true → d.marks q = true))
  limit : s'.limit + (s.cars i).admitted.toNat = s.limit + d.admitted.toNat
  range : s'.limit ≤ 3
  gate : d.instr = some (.enter .temp) → s'.limit ≤ 2
  keep : s'.limit ≤ s.limit ∨ (s.cars i).holds .temp = true

theorem Stoplight.Ok.change (h : s.Ok slack) (hs : CarStep s s' i d)
    (hmode : ∀ l, d.mode = .asleep l ∨ d.mode = .woken l → l = .temp ∧ d.instr = some (.await .temp))
    (hqueue : ∀ j, j ∈ s'.queue .temp ↔ if j = i then d.mode = .asleep .temp else j ∈ s.queue .temp)
    (hnodup : (s'.queue .temp).Nodup) (hcount : s'.count .temp = (s'.queue .temp).length)
    (hquad : ∀ q, s'.count (.quad q) = s.count (.quad q))
    (hwake : s'.queue .temp ≠ [] → 3 + slack' + (s.cars i).presence ≤ tally Car.presence s.cars + d.presence) :
    s'.Ok slack' := by
  have hself : s'.cars i = d := by rw [hs.cars, Function.update_self]
  have hother : ∀ j, j ≠ i → s'.cars j = s.cars j := fun j hj => by rw [hs.cars, Function.update_of_ne hj]
  refine ⟨fun j => ?_, fun j l hj => ?_, fun l j => ?_, fun q hq => ?_, ?_, hs.range, fun j hj => ?_, fun q => ?_,
    fun j => ?_, hnodup, hcount, fun hne => ?_⟩
  · by_cases hj : j = i
    · rw [hj, hself]
      exact hs.road
    · rw [hother j hj]
      exact h.road j
  · by_cases hji : j = i
    · rw [hji, hself] at hj ⊢
      exact hmode l hj
    · rw [hother j hji] at hj ⊢
      exact h.mode j l hj
  · by_cases hj : j = i
    · rw [hj, hself]
      exact (hs.holder l).1
    · rw [hother j hj, (hs.holder l).2 j hj]
      exact h.holder l j
  · rcases hs.mark q hq with hm | ⟨hm, hkeepm⟩
    · exact ⟨i, by rw [hself]; exact hm⟩
    · obtain ⟨j, hj⟩ := h.mark q hm
      by_cases hji : j = i
      · exact ⟨i, by rw [hself]; exact hkeepm (hji ▸ hj)⟩
      · exact ⟨j, by rw [hother j hji]; exact hj⟩
  · have hsum := tally_update (fun c : Car => c.admitted.toNat) s.cars i d
    rw [hs.cars]
    have := h.limit
    have := hs.limit
    omega
  · by_cases hji : j = i
    · rw [hji, hself] at hj
      exact hs.gate hj
    · rw [hother j hji] at hj
      rcases hs.keep with hle | hhold
      · exact hle.trans (h.gate j hj)
      · -- a car at the gate has `temp`, so no other car changes `limit`
        refine absurd (h.holder_unique hhold ?_) (fun he => hji he.symm)
        exact Car.holds_of_uses (h.awake_of_enter hj) hj (by simp [Instr.uses])
  · rw [hquad]
    exact h.quad q
  · rw [hqueue]
    by_cases hji : j = i
    · rw [if_pos hji, hji, hself]
    · rw [if_neg hji, hother j hji]
      exact h.queue j
  · have hsum := tally_update Car.presence s.cars i d
    have := hwake hne
    rw [hs.cars]
    omega

theorem Stoplight.Ok.moved (h : s.Ok slack) (hs : CarStep s s' i d)
    (hawake : (s.cars i).mode ≠ .asleep .temp) (hmode : d.mode = .awake)
    (hqueue : s'.queue = s.queue) (hcount : s'.count = s.count)
    (hwake : s.queue .temp ≠ [] → (s.cars i).presence + slack' ≤ d.presence + slack) : s'.Ok slack' := by
  refine h.change hs (fun l hl => ?_) (fun j => ?_) (hqueue ▸ h.nodup) ?_ (fun q => by rw [hcount]) (fun hne => ?_)
  · rw [hmode] at hl
    rcases hl with hl | hl <;> cases hl
  · rw [hqueue]
    by_cases hji : j = i
    · rw [if_pos hji, hji, hmode, h.queue i]
      exact ⟨fun h' => absurd h' hawake, nofun⟩
    · rw [if_neg hji]
  · rw [hqueue, hcount]
    exact h.count
  · rw [hqueue] at hne
    have := h.wake hne
    have := hwake hne
    omega

/-! ## One step -/

section
variable (h : s.Ok 0) (hm : (s.cars i).mode = .awake) {a : Instr} (ha : (s.cars i).instr = some a)
include h hm ha

theorem Stoplight.Ok.advanced (hcars : s'.cars = Function.update s.cars i (s.cars i).advance)
    (hqueue : s'.queue = s.queue) (hcount : s'.count = s.count) (hlimit : s'.limit = s.limit)
    (hholder : ∀ l, (s'.holder l = some i ↔ (s.cars i).advance.holds l = true) ∧
      ∀ j, j ≠ i → (s'.holder l = some j ↔ s.holder l = some j))
    (hmark : ∀ q, s'.mark q = 1 → (s.cars i).advance.marks q = true ∨
      (s.mark q = 1 ∧ ((s.cars i).marks q = true → (s.cars i).advance.marks q = true)))
    (hne : a ≠ .enter .temp ∧ a ≠ .leave .temp ∧ a ≠ .signal .temp) (hgate : a = .await .temp → s.limit ≤ 2) :
    s'.Ok 0 := by
  refine h.moved ⟨hcars, Car.onRoad_advance ha, hholder, hmark, ?_, hlimit ▸ h.range, fun hg => ?_,
    Or.inl (Int.le_of_eq hlimit)⟩ (by simp [hm]) hm hqueue hcount fun _ => ?_
  · rw [Car.admitted_advance ha, if_neg hne.1, if_neg hne.2.1, hlimit]
  · rw [hlimit]
    exact hgate (Car.await_of_advance hg ha)
  · simpa [hne.2.2] using Car.presence_advance hm ha

theorem Stoplight.Ok.relock {x : Option (Fin n)} (hl : a = .acquire l ∧ x = some i ∨ a = .release l ∧ x = none)
    (hother : ∀ j, j ≠ i → s.holder l ≠ some j) : ((s.setHolder l x).advance i).Ok 0 := by
  refine h.advanced hm ha rfl rfl rfl rfl (fun l' => ⟨?_, fun j hj => ?_⟩) (fun q hq => Or.inr ⟨hq, ?_⟩)
    (by rcases hl with ⟨rfl, -⟩ | ⟨rfl, -⟩ <;> simp) (by rcases hl with ⟨rfl, -⟩ | ⟨rfl, -⟩ <;> simp)
  · rw [Car.holds_advance hm ha]
    by_cases hl' : l' = l
    · subst hl'
      rcases hl with ⟨rfl, rfl⟩ | ⟨rfl, rfl⟩ <;> simp [Stoplight.setHolder, Stoplight.advance, Stoplight.setCar]
    · have : ¬ l = l' := fun h' => hl' h'.symm
      rcases hl with ⟨rfl, -⟩ | ⟨rfl, -⟩ <;>
        simp [Stoplight.setHolder, Stoplight.advance, Stoplight.setCar, hl', this, h.holder]
  · by_cases hl' : l' = l
    · subst hl'
      rcases hl with ⟨-, rfl⟩ | ⟨-, rfl⟩ <;>
        simp [Stoplight.setHolder, Stoplight.advance, Stoplight.setCar, hother j hj, hj.symm]
    · simp [Stoplight.setHolder, Stoplight.advance, Stoplight.setCar, hl']
  · rw [Car.marks_advance ha]
    rcases hl with ⟨rfl, -⟩ | ⟨rfl, -⟩ <;> simp

theorem Stoplight.Ok.acquire (hl : a = .acquire l) (hfree : s.holder l = none) :
    ((s.setHolder l (some i)).advance i).Ok 0 :=
  h.relock hm ha (Or.inl ⟨hl, rfl⟩) fun j _ => by simp [hfree]

theorem Stoplight.Ok.release (hl : a = .release l) : ((s.setHolder l none).advance i).Ok 0 := by
  have hhold : s.holder l = some i := (h.holder l i).mpr (Car.holds_of_uses hm ha (by simp [hl, Instr.uses]))
  refine h.relock hm ha (Or.inr ⟨hl, rfl⟩) fun j hj => ?_
  rw [hhold]
  simpa using hj.symm

theorem Stoplight.Ok.holder_advance (hne : ∀ l, a ≠ .acquire l ∧ a ≠ .release l) (l : StopLock) :
    (s.holder l = some i ↔ (s.cars i).advance.holds l = true) ∧
      ∀ j, j ≠ i → (s.holder l = some j ↔ s.holder l = some j) := by
  refine ⟨?_, fun _ _ => Iff.rfl⟩
  rw [Car.holds_advance hm ha, if_neg (hne l).1, if_neg (hne l).2]
  exact h.holder l i

theorem Stoplight.Ok.not_busy (hl : a = .await (.quad q)) : s.busy (.quad q) = false := by
  subst hl
  have hhold : (s.cars i).holds (.quad q) = true := Car.holds_of_uses hm ha (by simp [Instr.uses])
  have hmark : ¬ s.mark q = 1 := by
    intro hone
    obtain ⟨j, hj⟩ := h.mark q hone
    have hmj : (s.cars j).mode = .awake := by
      cases hmode : (s.cars j).mode with
      | awake => rfl
      | asleep l => rw [(Car.of_await_temp (h.mode j l (Or.inl hmode)).2).2.1 q] at hj; cases hj
      | woken l => rw [(Car.of_await_temp (h.mode j l (Or.inr hmode)).2).2.1 q] at hj; cases hj
    obtain rfl := h.holder_unique hhold (Car.holds_of_marks (h.road j) hmj hj)
    rw [Car.not_marks_of_await ha] at hj
    cases hj
  simpa [Stoplight.busy] using hmark

theorem Stoplight.Ok.pass (hl : a = .await l) (hbusy : s.busy l = false) : (s.advance i).Ok 0 := by
  subst hl
  refine h.advanced hm ha rfl rfl rfl rfl (h.holder_advance hm ha (by simp)) (fun q hq => Or.inr ⟨hq, ?_⟩) (by simp) ?_
  · rw [Car.marks_advance ha]
    simp
  · intro hl
    cases hl
    simpa [Stoplight.busy] using hbusy

theorem Stoplight.Ok.enterQuad (hl : a = .enter (.quad q)) : ((s.enter (.quad q)).advance i).Ok 0 := by
  subst hl
  refine h.advanced hm ha rfl rfl rfl rfl (h.holder_advance hm ha (by simp)) (fun q' hq => ?_) (by simp) (by simp)
  by_cases hq' : q' = q
  · subst hq'
    exact Or.inl (by rw [Car.marks_advance ha]; simp)
  · refine Or.inr ⟨?_, ?_⟩
    · simpa [Stoplight.enter, Stoplight.advance, Stoplight.setCar, hq'] using hq
    · rw [Car.marks_advance ha]
      simp [Ne.symm hq']

theorem Stoplight.Ok.leaveQuad (hl : a = .leave (.quad q)) : ((s.leave (.quad q)).advance i).Ok 0 := by
  subst hl
  refine h.advanced hm ha rfl rfl rfl rfl (h.holder_advance hm ha (by simp)) (fun q' hq => Or.inr ?_)
    (by simp) (by simp)
  by_cases hq' : q' = q
  · subst hq'
    simp [Stoplight.leave, Stoplight.advance, Stoplight.setCar] at hq
  · refine ⟨?_, ?_⟩
    · simpa [Stoplight.leave, Stoplight.advance, Stoplight.setCar, hq'] using hq
    · rw [Car.marks_advance ha]
      simp [Ne.symm hq']

theorem Stoplight.Ok.setLimit {x : Int} (hne : ∀ l, a ≠ .acquire l ∧ a ≠ .release l)
    (hmarks : ∀ q, a ≠ .enter (.quad q) ∧ a ≠ .leave (.quad q)) (hsig : a ≠ .signal .temp) (hawait : a ≠ .await .temp)
    (hlimit : x + (s.cars i).admitted.toNat = s.limit + (s.cars i).advance.admitted.toNat) (hrange : x ≤ 3)
    (hkeep : x ≤ s.limit ∨ (s.cars i).holds .temp = true) : ({ s with limit := x }.advance i).Ok 0 := by
  refine h.moved ⟨rfl, Car.onRoad_advance ha, h.holder_advance hm ha hne, fun q hq => Or.inr ⟨hq, ?_⟩, hlimit, hrange,
    fun hg => absurd (Car.await_of_advance hg ha) hawait, hkeep⟩ (by simp [hm]) hm rfl rfl fun _ => ?_
  · change _ → (s.cars i).advance.marks q = true
    rw [Car.marks_advance ha, if_neg (hmarks q).1, if_neg (hmarks q).2]
    exact id
  · change (s.cars i).presence + 0 ≤ (s.cars i).advance.presence + 0
    simpa [hsig] using Car.presence_advance hm ha

theorem Stoplight.Ok.enterTemp (hl : a = .enter .temp) : ((s.enter .temp).advance i).Ok 0 := by
  subst hl
  have hlimit := h.gate i ha
  refine h.setLimit hm ha (by simp) (by simp) (by simp) (by simp) ?_ (by omega)
    (Or.inr (Car.holds_of_uses hm ha (by simp [Instr.uses])))
  rw [Car.admitted_advance ha, Car.not_admitted_of_enter ha]
  simp

theorem Stoplight.Ok.leaveTemp (hl : a = .leave .temp) : ((s.leave .temp).advance i).Ok 0 := by
  subst hl
  have hrange := h.range
  refine h.setLimit hm ha (by simp) (by simp) (by simp) (by simp) ?_ (by omega) (Or.inl (by omega))
  rw [Car.admitted_advance ha, Car.admitted_of_leave ha]
  simp

theorem Stoplight.Ok.sleepOn (hl : a = .await .temp) (hbusy : s.busy .temp = true) : (s.sleepOn i .temp).Ok 0 := by
  subst hl
  have hlimit : 2 < s.limit := by simpa [Stoplight.busy] using hbusy
  have hhold : s.holder .temp = some i := (h.holder .temp i).mpr (Car.holds_of_uses hm ha (by simp [Instr.uses]))
  have hnot : i ∉ s.queue .temp := by
    rw [h.queue, hm]
    nofun
  refine h.change (d := { s.cars i with mode := .asleep .temp }) ⟨rfl, h.road i, fun l => ⟨?_, fun j hj => ?_⟩,
    fun q hq => Or.inr ⟨hq, id⟩, rfl, h.range, h.gate i, Or.inl (Int.le_refl _)⟩ (fun l hl => ?_) (fun j => ?_) ?_ ?_
    (fun q => rfl) (fun _ => ?_)
  · by_cases hl : l = .temp
    · subst hl
      simp [Stoplight.sleepOn, Stoplight.setCar, Stoplight.setHolder, Car.holds]
    · rw [Car.holds_withMode hl]
      simp [Stoplight.sleepOn, Stoplight.setCar, Stoplight.setHolder, hl, h.holder, Car.holds_of_awake hm]
  · by_cases hl : l = .temp
    · subst hl
      simp [Stoplight.sleepOn, Stoplight.setCar, Stoplight.setHolder, hhold, hj.symm]
    · simp [Stoplight.sleepOn, Stoplight.setCar, Stoplight.setHolder, hl]
  · rcases hl with hl | hl
    · cases hl
      exact ⟨rfl, ha⟩
    · cases hl
  · simp only [Stoplight.sleepOn, Function.update_self, List.mem_append, List.mem_singleton]
    by_cases hj : j = i <;> simp [hj]
  · simp only [Stoplight.sleepOn, Function.update_self]
    rw [List.nodup_append]
    refine ⟨h.nodup, List.nodup_singleton _, fun x hx y hy he => hnot ?_⟩
    rw [List.mem_singleton] at hy
    exact hy ▸ he ▸ hx
  · simp [Stoplight.sleepOn, h.count]
  · -- three cars are admitted, and this one is not
    have hsum : s.limit ≤ (tally Car.presence (Function.update s.cars i
        { s.cars i with mode := .asleep .temp }) : Int) := by
      have hadm := tally_update (fun c : Car => c.admitted.toNat) s.cars i { s.cars i with mode := .asleep .temp }
      have hle : tally (fun c : Car => c.admitted.toNat)
        (Function.update s.cars i { s.cars i with mode := .asleep .temp }) ≤
          tally Car.presence (Function.update s.cars i { s.cars i with mode := .asleep .temp }) :=
        Finset.sum_le_sum fun j _ => Nat.le_add_right _ _
      have hsame : Car.admitted { s.cars i with mode := .asleep .temp } = (s.cars i).admitted := rfl
      rw [hsame] at hadm
      have := h.limit
      omega
    have hup := tally_update Car.presence s.cars i { s.cars i with mode := .asleep .temp }
    omega

end

theorem Stoplight.Ok.signalled (h : s.Ok slack) (hm : (s.cars i).mode = .awake)
    (ha : (s.cars i).instr = some (.signal l)) (hslack : s.queue .temp ≠ [] → l = .temp → 1 ≤ slack) :
    (s.advance i).Ok 0 := by
  refine h.moved ⟨rfl, Car.onRoad_advance ha, fun l' => ⟨?_, fun _ _ => Iff.rfl⟩, fun q hq => Or.inr ⟨hq, ?_⟩, ?_,
    h.range, fun hg => ?_, Or.inl (Int.le_refl _)⟩ (by simp [hm]) hm rfl rfl (fun hne => ?_)
  · change s.holder l' = some i ↔ (s.cars i).advance.holds l' = true
    rw [Car.holds_advance hm ha]
    simpa using h.holder l' i
  · change _ → (s.cars i).advance.marks q = true
    rw [Car.marks_advance ha]
    simp
  · change s.limit + _ = s.limit + ((s.cars i).advance.admitted.toNat : Int)
    rw [Car.admitted_advance ha]
    simp
  · have := Car.await_of_advance hg ha
    cases this
  · have hp := Car.presence_advance hm ha
    have hs := hslack hne
    change _ ≤ (s.cars i).advance.presence + slack
    by_cases hl : l = .temp
    · rw [if_pos (by rw [hl])] at hp
      have := hs hl
      omega
    · rw [if_neg (by simpa using hl)] at hp
      omega

theorem Stoplight.Ok.wakeup (h : s.Ok 0) {rest : List (Fin n)} (hq : s.queue .temp = w :: rest) :
    Stoplight.Ok 1 ({ s with
      count := Function.update s.count .temp (s.count .temp - 1)
      queue := Function.update s.queue .temp rest }.wakeup w) := by
  have hmode : (s.cars w).mode = .asleep .temp := (h.queue w).mp (hq ▸ List.mem_cons_self ..)
  have hinstr := (h.mode w .temp (Or.inl hmode)).2
  have hnodup := h.nodup
  rw [hq, List.nodup_cons] at hnodup
  have hcount := h.count
  rw [hq, List.length_cons] at hcount
  rw [Stoplight.wakeup, hmode]
  refine h.change (d := { s.cars w with mode := .woken .temp }) ⟨rfl, h.road w, fun l => ⟨?_, fun j hj => Iff.rfl⟩,
    fun q hq => Or.inr ⟨hq, id⟩, rfl, h.range, h.gate w, Or.inl (Int.le_refl _)⟩ (fun l hl => ?_) (fun j => ?_) ?_ ?_
    (fun q => rfl) (fun _ => ?_)
  · change s.holder l = some w ↔ _
    rw [h.holder l w]
    simp [Car.holds, Car.done, hmode]
  · rcases hl with hl | hl
    · cases hl
    · cases hl
      exact ⟨rfl, hinstr⟩
  · simp only [Stoplight.setCar, Function.update_self, hq, List.mem_cons]
    by_cases hj : j = w
    · simp [hj, hnodup.1]
    · simp [hj]
  · simpa [Stoplight.setCar] using hnodup.2
  · simp [Stoplight.setCar, hcount]
  · have hpres : Car.presence (s.cars w) + 1 = Car.presence { s.cars w with mode := .woken .temp } := by
      have hinstr' : Car.instr { s.cars w with mode := .woken .temp } = some (.await .temp) := hinstr
      have hsame : Car.admitted { s.cars w with mode := .woken .temp } = (s.cars w).admitted := rfl
      simp [Car.presence, Car.contends, hmode, hinstr', hsame]
    have := h.wake (by rw [hq]; simp)
    omega

theorem Stoplight.Ok.reacquire (h : s.Ok 0) (hm : (s.cars i).mode = .woken l) (hfree : s.holder l = none) :
    ((s.setHolder l (some i)).setCar i { s.cars i with mode := .awake }).Ok 0 := by
  obtain ⟨rfl, hinstr⟩ := h.mode i l (Or.inr hm)
  have hawake : Car.holds { s.cars i with mode := .awake } .temp = true :=
    Car.holds_of_uses rfl hinstr (by simp [Instr.uses])
  refine h.moved (d := { s.cars i with mode := .awake }) ⟨rfl, h.road i, fun l => ⟨?_, fun j hj => ?_⟩,
    fun q hq => Or.inr ⟨hq, id⟩, rfl, h.range, h.gate i,
    Or.inl (Int.le_refl _)⟩ (by simp [hm]) rfl rfl rfl (fun _ => ?_)
  · by_cases hl : l = .temp
    · subst hl
      simp [Stoplight.setCar, Stoplight.setHolder, hawake]
    · rw [Car.holds_of_awake rfl]
      simp [Stoplight.setCar, Stoplight.setHolder, hl, h.holder, Car.holds, hm, Ne.symm hl, Car.done]
  · by_cases hl : l = .temp
    · subst hl
      simp [Stoplight.setCar, Stoplight.setHolder, hfree, hj.symm]
    · simp [Stoplight.setCar, Stoplight.setHolder, hl]
  · have hinstr' : Car.instr { s.cars i with mode := .awake } = some (.await .temp) := hinstr
    have hsame : Car.admitted { s.cars i with mode := .awake } = (s.cars i).admitted := rfl
    simp [Car.presence, Car.contends, hm, hinstr, hinstr', hsame]

def Stoplight.Waits (s : Stoplight n) (i : Fin n) : Prop :=
  (∃ l, (s.cars i).mode = .asleep l) ∨
    (∃ l, (s.cars i).mode = .woken l ∧ s.holder l ≠ none) ∨
    (s.cars i).mode = .awake ∧ ∃ l, (s.cars i).instr = some (.acquire l) ∧ s.holder l ≠ none

theorem Stoplight.Ok.step (h : s.Ok 0) (i : Fin n) :
    (stoplightStep s i = .error .blocked ∧ s.Waits i) ∨
      (stoplightStep s i = .error .finished ∧ (s.cars i).instr = none) ∨
      ∃ s', stoplightStep s i = .ok s' ∧ s'.Ok 0 := by
  unfold stoplightStep
  cases hm : (s.cars i).mode with
  | asleep l => exact Or.inl ⟨rfl, Or.inl ⟨l, hm⟩⟩
  | woken l =>
    by_cases hfree : s.holder l = none
    · simp only [if_pos hfree]
      exact Or.inr (Or.inr ⟨_, rfl, h.reacquire hm hfree⟩)
    · simp only [if_neg hfree]
      exact Or.inl ⟨trivial, Or.inr (Or.inl ⟨l, hm, hfree⟩)⟩
  | awake =>
    cases ha : (s.cars i).instr with
    | none => exact Or.inr (Or.inl ⟨rfl, rfl⟩)
    | some a =>
      cases a with
      | acquire l =>
        by_cases hfree : s.holder l = none
        · simp only [Stoplight.exec, if_pos hfree]
          exact Or.inr (Or.inr ⟨_, rfl, h.acquire hm ha rfl hfree⟩)
        · simp only [Stoplight.exec, if_neg hfree]
          exact Or.inl ⟨trivial, Or.inr (Or.inr ⟨hm, l, ha, hfree⟩)⟩
      | release l => exact Or.inr (Or.inr ⟨_, rfl, h.release hm ha rfl⟩)
      | await l =>
        refine Or.inr (Or.inr ?_)
        have hhold : s.holder l = some i := (h.holder l i).mpr (Car.holds_of_uses hm ha (by simp [Instr.uses]))
        cases hbusy : s.busy l with
        | false =>
          simp only [Stoplight.exec, hbusy, Bool.false_eq_true, if_false]
          exact ⟨_, rfl, h.pass hm ha rfl hbusy⟩
        | true =>
          simp only [Stoplight.exec, hbusy, if_true, if_pos hhold]
          cases l with
          | quad q => rw [h.not_busy hm ha rfl] at hbusy; cases hbusy
          | temp => exact ⟨_, rfl, h.sleepOn hm ha rfl hbusy⟩
      | enter l =>
        refine Or.inr (Or.inr ⟨_, rfl, ?_⟩)
        cases l with
        | quad q => exact h.enterQuad hm ha rfl
        | temp => exact h.enterTemp hm ha rfl
      | leave l =>
        refine Or.inr (Or.inr ⟨_, rfl, ?_⟩)
        cases l with
        | quad q => exact h.leaveQuad hm ha rfl
        | temp => exact h.leaveTemp hm ha rfl
      | signal l =>
        refine Or.inr (Or.inr ?_)
        have hhold : s.holder l = some i := (h.holder l i).mpr (Car.holds_of_uses hm ha (by simp [Instr.uses]))
        simp only [Stoplight.exec, Stoplight.signal]
        by_cases hcount : s.count l = 0
        · rw [if_neg (not_not.mpr hcount), ok_bind]
          refine ⟨_, rfl, h.signalled hm ha fun hne hl => ?_⟩
          -- an empty queue has nobody to wake
          subst hl
          have hlen := h.count
          rw [hcount] at hlen
          exact absurd (List.length_eq_zero_iff.mp (by omega)) hne
        · rw [if_pos hcount, if_pos hhold]
          cases l with
          | quad q => exact absurd (h.quad q) hcount
          | temp =>
            cases hq : s.queue .temp with
            | nil => exact absurd (by rw [h.count, hq]; rfl) hcount
            | cons w rest =>
              have hwi : w ≠ i := by
                rintro rfl
                have := (h.queue w).mp (hq ▸ List.mem_cons_self ..)
                rw [hm] at this
                cases this
              have hasleep : (s.cars w).mode = .asleep .temp := (h.queue w).mp (hq ▸ List.mem_cons_self ..)
              have hwoken := h.wakeup hq
              rw [ok_bind]
              refine ⟨_, rfl, hwoken.signalled (l := .temp) ?_ ?_ (fun _ _ => Nat.le_refl 1)⟩
              · simp [Stoplight.wakeup, hasleep, Stoplight.setCar, Function.update_of_ne hwi.symm, hm]
              · simp [Stoplight.wakeup, hasleep, Stoplight.setCar, Function.update_of_ne hwi.symm, ha]

theorem Stoplight.Ok.reach {plan : Fin n → Plan} (h : Reach stoplightStep (fun _ _ => True) (Stoplight.start plan) s) :
    s.Ok 0 := by
  refine h.invariant (I := Stoplight.Ok 0) (Stoplight.Ok.start plan) (fun s i s' hi _ hs => ?_)
  rcases hi.step i with ⟨he, -⟩ | ⟨he, -⟩ | ⟨s₁, he, h₁⟩
  · rw [he] at hs; cases hs
  · rw [he] at hs; cases hs
  · rw [he] at hs
    exact Except.ok.inj hs ▸ h₁

/-! ## No deadlock -/

def Stoplight.Unfinished (s : Stoplight n) (i : Fin n) : Prop := (s.cars i).instr ≠ none

section
variable (h : s.Ok 0) (hw : ∀ i, s.Unfinished i → s.Waits i)
include h hw

theorem Stoplight.Ok.temp_free : s.holder .temp = none := by
  cases ht : s.holder .temp with
  | none => rfl
  | some i =>
    have hhold := (h.holder .temp i).mp ht
    obtain ⟨a, ha, hne⟩ := Car.of_holds_temp (h.road i) hhold
    rcases hw i (by rw [Stoplight.Unfinished, ha]; simp) with ⟨l, hm⟩ | ⟨l, hm, -⟩ | ⟨-, l, hl, -⟩
    · obtain ⟨rfl, -⟩ := h.mode i l (Or.inl hm)
      simp [Car.holds, hm] at hhold
    · obtain ⟨rfl, -⟩ := h.mode i l (Or.inr hm)
      simp [Car.holds, hm] at hhold
    · rw [ha] at hl
      exact absurd (Option.some.inj hl) (hne l)

theorem Stoplight.Ok.waits_for (hi : s.Unfinished i) (hm : ∀ l, (s.cars i).mode ≠ .asleep l) :
    ∃ q j, (s.cars i).mode = .awake ∧ (s.cars i).instr = some (.acquire (.quad q)) ∧ s.holder (.quad q) = some j := by
  have hfree := h.temp_free hw
  rcases hw i hi with ⟨l, hl⟩ | ⟨l, hl, hne⟩ | ⟨hawake, l, hl, hne⟩
  · exact absurd hl (hm l)
  · obtain ⟨rfl, -⟩ := h.mode i l (Or.inr hl)
    exact absurd hfree hne
  · cases l with
    | temp => exact absurd hfree hne
    | quad q =>
      obtain ⟨j, hj⟩ := Option.ne_none_iff_exists'.mp hne
      exact ⟨q, j, hawake, hl, hj⟩

theorem Stoplight.Ok.next_held (hq : s.holder (.quad q.before) = some i) :
    (s.cars i).instr = some (.acquire (.quad q)) ∧ ∃ j, s.holder (.quad q) = some j := by
  have hhold := (h.holder _ i).mp hq
  obtain ⟨-, hun⟩ := Car.of_holds_quad (h.road i) hhold
  have hm : ∀ l, (s.cars i).mode ≠ .asleep l := by
    intro l hm
    have hadm := (Car.of_holds_quad (h.road i) hhold).1
    rw [(Car.of_await_temp (h.mode i l (Or.inl hm)).2).1] at hadm
    cases hadm
  obtain ⟨q', j, -, hinstr, hj⟩ := h.waits_for hw hun hm
  have hbefore := Car.holds_before hinstr hhold
  have hqq : q' = q := by
    revert hbefore
    cases q <;> cases q' <;> simp [Quadrant.before]
  subst hqq
  exact ⟨hinstr, j, hj⟩

theorem Stoplight.Ok.no_wait_for_quadrant (hq : s.holder (.quad q) = some i) : False := by
  have hall : ∀ q', ∃ j, s.holder (.quad q') = some j := by
    -- from `q` once around
    have hnext : ∀ q', (∃ j, s.holder (.quad q'.before) = some j) → ∃ j, s.holder (.quad q') = some j :=
      fun q' ⟨j, hj⟩ => (h.next_held hw hj).2
    have h₀ : ∃ j, s.holder (.quad q) = some j := ⟨i, hq⟩
    intro q'
    cases q with
    | nw =>
      have hsw := hnext .sw h₀
      have hse := hnext .se hsw
      have hne := hnext .ne hse
      cases q' <;> assumption
    | ne =>
      have hnw := hnext .nw h₀
      have hsw := hnext .sw hnw
      have hse := hnext .se hsw
      cases q' <;> assumption
    | se =>
      have hne := hnext .ne h₀
      have hnw := hnext .nw hne
      have hsw := hnext .sw hnw
      cases q' <;> assumption
    | sw =>
      have hse := hnext .se h₀
      have hne := hnext .ne hse
      have hnw := hnext .nw hne
      cases q' <;> assumption
  choose g hg using hall
  have hinj : Function.Injective g := by
    intro q₁ q₂ he
    -- the holder of a quadrant waits for one place only
    obtain ⟨r₁, rfl⟩ : ∃ r, q₁ = r.before := ⟨q₁.before.before.before, by cases q₁ <;> rfl⟩
    obtain ⟨r₂, rfl⟩ : ∃ r, q₂ = r.before := ⟨q₂.before.before.before, by cases q₂ <;> rfl⟩
    have h₁ := (h.next_held hw (hg r₁.before)).1
    have h₂ := (h.next_held hw (hg r₂.before)).1
    rw [he, h₂] at h₁
    cases h₁
    rfl
  have hfour : Fintype.card Quadrant ≤ tally (fun c : Car => c.admitted.toNat) s.cars := by
    refine card_le_tally hinj fun q' => ?_
    rw [(Car.of_holds_quad (h.road (g q')) ((h.holder _ _).mp (hg q'))).1]
    rfl
  have hcard : Fintype.card Quadrant = 4 := rfl
  have := h.limit
  have := h.range
  omega

theorem Stoplight.Ok.all_finished : ∀ i, ¬ s.Unfinished i := by
  have hawake : ∀ i, s.Unfinished i → ∃ l, (s.cars i).mode = .asleep l := by
    intro i hi
    by_contra hne
    push Not at hne
    obtain ⟨q, j, -, -, hj⟩ := h.waits_for hw hi hne
    exact h.no_wait_for_quadrant hw hj
  intro i hi
  obtain ⟨l, hl⟩ := hawake i hi
  obtain ⟨rfl, -⟩ := h.mode i l (Or.inl hl)
  have hmem : i ∈ s.queue .temp := (h.queue i).mpr hl
  have hpres := h.wake (List.ne_nil_of_mem hmem)
  -- a car that is admitted or contends is neither finished nor asleep
  obtain ⟨j, hj⟩ := tally_pos_iff.mp (show 0 < tally Car.presence s.cars by omega)
  have hun : s.Unfinished j := by
    intro hnone
    have hadm : (s.cars j).admitted = false := by
      by_contra hne
      exact Car.instr_of_admitted (h.road j) (Bool.of_not_eq_false hne) hnone
    simp [Car.presence, Car.contends, hnone, hadm] at hj
  obtain ⟨l', hl'⟩ := hawake j hun
  obtain ⟨rfl, hinstr⟩ := h.mode j l' (Or.inl hl')
  simp [Car.presence, Car.contends, hl', (Car.of_await_temp hinstr).1] at hj

end

/-- In every reachable state of any number of cars: `limit` counts the
admitted cars and is at most 3, `count` counts the sleepers of `queue4`, a car
that waits for a quadrant holds at most one other, no quadrant has two cars,
no assertion fails, and some unfinished car can go on. -/
theorem intersection_deadlock_free {plan : Fin n → Plan}
    (h : Reach stoplightStep (fun _ _ => True) (Stoplight.start plan) s) :
    (s.holder .temp = none → s.limit = tally (fun c => c.admitted.toNat) s.cars ∧ 0 ≤ s.limit ∧ s.limit ≤ 3 ∧
        s.count .temp = tally (fun c => (decide (c.mode = .asleep .temp)).toNat) s.cars) ∧
      (∀ i q, (s.cars i).instr = some (.acquire (.quad q)) →
        ∀ l l', (s.cars i).holds l = true → (s.cars i).holds l' = true → l = l') ∧
      (∀ q i j, (s.cars i).occupies q = true → (s.cars j).occupies q = true → i = j) ∧
      (∀ i f, stoplightStep s i = .error f → f = .blocked ∨ f = .finished ∧ ¬ s.Unfinished i) ∧
      ¬ ((∃ i, s.Unfinished i) ∧ ∀ i, s.Unfinished i → stoplightStep s i = .error .blocked) := by
  have hok := Stoplight.Ok.reach h
  have hawake : ∀ i q, (s.cars i).occupies q = true → (s.cars i).mode = .awake := by
    intro i q hi
    cases hm : (s.cars i).mode with
    | awake => rfl
    | asleep l => rw [(Car.of_await_temp (hok.mode i l (Or.inl hm)).2).2.2 q] at hi; cases hi
    | woken l => rw [(Car.of_await_temp (hok.mode i l (Or.inr hm)).2).2.2 q] at hi; cases hi
  refine ⟨fun _ => ⟨hok.limit, hok.limit_nonneg, hok.range, ?_⟩, fun i q hi l l' hl hl' => ?_, fun q i j hi hj => ?_,
    fun i f hf => ?_, fun ⟨⟨i, hi⟩, hw⟩ => ?_⟩
  · rw [hok.count, tally_eq_length (p := fun c : Car => c.mode = .asleep .temp) hok.nodup hok.queue]
  · exact (Car.holds_before hi hl).trans (Car.holds_before hi hl').symm
  · exact hok.holder_unique (Car.holds_of_occupies (hok.road i) (hawake i q hi) hi)
      (Car.holds_of_occupies (hok.road j) (hawake j q hj) hj)
  · rcases hok.step i with ⟨he, -⟩ | ⟨he, hnone⟩ | ⟨s', he, -⟩
    · rw [he] at hf
      exact Or.inl (Except.error.inj hf).symm
    · rw [he] at hf
      exact Or.inr ⟨(Except.error.inj hf).symm, fun hun => hun hnone⟩
    · rw [he] at hf
      cases hf
  · refine hok.all_finished (fun j hj => ?_) i hi
    rcases hok.step j with ⟨-, hwait⟩ | ⟨he, -⟩ | ⟨s', he, -⟩
    · exact hwait
    · rw [hw j hj] at he
      cases he
    · rw [hw j hj] at he
      cases he

/-- A car is in the north-west quadrant and another waits for it. -/
theorem intersection_deadlock_free_two :
    ∃ s : Stoplight 2, Reach stoplightStep (fun _ _ => True) (Stoplight.start fun _ => (.north, .straight)) s ∧
      s.holder (.quad .nw) = some 0 ∧ (s.cars 1).instr = some (.acquire (.quad .nw)) ∧ s.limit = 2 ∧ s.limit ≤ 3 ∧
      ∃ i, s.Unfinished i ∧ stoplightStep s i ≠ .error .blocked := by
  obtain ⟨s, hr, htemp, hnw, hinstr, hlimit⟩ : ∃ s : Stoplight 2,
      Reach stoplightStep (fun _ _ => True) (Stoplight.start fun _ => (.north, .straight)) s ∧ s.holder .temp = none ∧
        s.holder (.quad .nw) = some 0 ∧ (s.cars 1).instr = some (.acquire (.quad .nw)) ∧ s.limit = 2 :=
    Reach.of_leads (l := [0, 0, 0, 0, 0, 0, 0, 1, 1, 1, 1]) (by decide)
  have h := intersection_deadlock_free hr
  refine ⟨s, hr, hnw, hinstr, hlimit, (h.1 htemp).2.2.1, ?_⟩
  by_contra hno
  push Not at hno
  exact h.2.2.2.2 ⟨⟨1, by simp [Stoplight.Unfinished, hinstr]⟩, hno⟩

end Os161
