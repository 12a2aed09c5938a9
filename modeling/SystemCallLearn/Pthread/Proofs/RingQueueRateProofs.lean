import SystemCallLearn.Pthread.Proofs.RingQueueProgressProofs
import SystemCallLearn.Pthread.Proofs.SemRingQueueProofs
import SystemCallLearn.Lib.Measure

/-!
# The ring queues deliver

A thread of either queue waits without running, so each statement that is run brings its thread
closer to the next access. Over a run the statements add up to accesses, and the producers are at
most `cap` accesses ahead: the number of values delivered follows from the number of statements run,
whatever the schedule.
-/

namespace SystemCallLearn.Pthread

open SystemCallLearn.Lib

/-! ## The queue with mutexes -/

/-- How many statements the thread has run since its last access, or would have before its first. -/
def Point.rank {A : Type} : Point A → Nat
  | .increment => 0
  | .wrap => 1
  | .unlock => 2
  | .post => 3
  | .idle => 4
  | .wait _ => 5
  | .lock _ => 6
  | .access _ => 7

section Side

variable {ι A : Type} [DecidableEq ι] [Fintype ι] {cap : Nat} {s s' : Side ι A} {i : ι}
  {e : Effect A}

theorem Side.rank_move {pt : Point A} {k : Nat} (h : pt.rank + 8 * k = (s.point i).rank + 1) :
    total Point.rank (s.move i pt).point + 8 * k = total Point.rank s.point + 1 := by
  have htotal := total_update Point.rank s.point i pt
  simp only [Side.move]
  omega

/-- **Each statement is one step towards the next access.** -/
theorem Side.rank_advance (hst : s.advance cap i = some (s', e)) :
    total Point.rank s'.point + 8 * e.accesses = total Point.rank s.point + 1 := by
  cases hpt : s.point i with
  | idle => simp [Side.advance, hpt] at hst
  | lock a =>
    cases hm : s.mtx with
    | some k => simp [Side.advance, hpt, hm] at hst
    | none =>
      simp only [Side.advance, hpt, hm, Option.some.injEq, Prod.mk.injEq] at hst
      obtain ⟨rfl, rfl⟩ := hst
      exact Side.rank_move (by rw [hpt]; rfl)
  | wait a | access a | increment | wrap | unlock | post =>
    simp only [Side.advance, hpt, Option.some.injEq, Prod.mk.injEq] at hst
    obtain ⟨rfl, rfl⟩ := hst
    exact Side.rank_move (by rw [hpt]; rfl)

theorem Side.rank_call {a : A} (hst : s.call i a = some s') :
    total Point.rank s'.point = total Point.rank s.point + 1 := by
  obtain ⟨hi, hp⟩ := Side.call_point hst
  have htotal := total_update Point.rank s.point i (.wait a)
  rw [hi] at htotal
  simp only [Point.rank] at htotal
  rw [hp]
  omega

omit [DecidableEq ι] in
theorem Side.rank_le (s : Side ι A) : total Point.rank s.point ≤ 7 * Fintype.card ι := by
  apply total_le
  intro i
  cases s.point i <;> simp [Point.rank]

end Side

section Queue

variable {T P C : Type} [DecidableEq P] [DecidableEq C] [Fintype P] [Fintype C]
  {q q' : RingQueue T P C} {cap : Nat}

omit [DecidableEq P] [DecidableEq C] in
/-- The measure: eight for each access, and what the threads have run since. -/
def RingQueue.progress (q : RingQueue T P C) : Nat :=
  8 * (q.stored.length + q.loaded.length) +
    (total Point.rank q.p.point + total Point.rank q.c.point)

omit [DecidableEq C] in
theorem RingQueue.push_progress {i : P} (hst : q.push i = some q') :
    q'.progress = q.progress + 1 := by
  cases hadv : q.p.advance q.cap i with
  | none => simp [RingQueue.push, hadv] at hst
  | some pe =>
    obtain ⟨p, e⟩ := pe
    have hrank := Side.rank_advance hadv
    cases e with
    | none | post =>
      simp only [RingQueue.push, hadv, Option.some.injEq] at hst
      subst hst
      simp only [Effect.accesses] at hrank
      simp only [RingQueue.progress]
      omega
    | wait =>
      simp only [RingQueue.push, hadv, Option.map_eq_some_iff] at hst
      obtain ⟨n, -, rfl⟩ := hst
      simp only [Effect.accesses] at hrank
      simp only [RingQueue.progress]
      omega
    | access v =>
      simp only [RingQueue.push, hadv, Option.some.injEq] at hst
      subst hst
      simp only [Effect.accesses] at hrank
      simp only [RingQueue.progress, List.length_append, List.length_singleton]
      omega

omit [DecidableEq P] in
theorem RingQueue.pop_progress {j : C} (hst : q.pop j = some q') :
    q'.progress = q.progress + 1 := by
  cases hadv : q.c.advance q.cap j with
  | none => simp [RingQueue.pop, hadv] at hst
  | some ce =>
    obtain ⟨c, e⟩ := ce
    have hrank := Side.rank_advance hadv
    cases e with
    | none | post =>
      simp only [RingQueue.pop, hadv, Option.some.injEq] at hst
      subst hst
      simp only [Effect.accesses] at hrank
      simp only [RingQueue.progress]
      omega
    | wait =>
      simp only [RingQueue.pop, hadv, Option.map_eq_some_iff] at hst
      obtain ⟨n, -, rfl⟩ := hst
      simp only [Effect.accesses] at hrank
      simp only [RingQueue.progress]
      omega
    | access a =>
      cases hw : q.ringQueue[q.c.step]? with
      | none => simp [RingQueue.pop, hadv, hw] at hst
      | some w =>
        simp only [RingQueue.pop, hadv, hw, Option.some.injEq] at hst
        subst hst
        simp only [Effect.accesses] at hrank
        simp only [RingQueue.progress, List.length_append, List.length_singleton]
        omega

/-- **Every step raises the measure by one.** -/
theorem RingQueue.step_progress {a : RingAct T P C} (hst : Lib.Step RingQueue.step q a q') :
    q'.progress = q.progress + 1 := by
  cases a with
  | push i => exact RingQueue.push_progress hst
  | pop j => exact RingQueue.pop_progress hst
  | callPush i v =>
    simp only [Lib.Step, RingQueue.step, Option.map_eq_some_iff] at hst
    obtain ⟨p, hp, rfl⟩ := hst
    have hrank := Side.rank_call hp
    simp only [RingQueue.progress]
    omega
  | callPop j =>
    simp only [Lib.Step, RingQueue.step, Option.map_eq_some_iff] at hst
    obtain ⟨c, hc, rfl⟩ := hst
    have hrank := Side.rank_call hc
    simp only [RingQueue.progress]
    omega

/-- **The queue delivers.** Whatever the schedule of `P` producers and `C` consumers, of `n`
    statements run at least `(n - 8 * cap - 3 * (P + C)) / 16` have been loads of a value: nobody
    runs in circles while the others wait. -/
theorem ringQueue_delivers [Inhabited T] (cap : Nat) (hcap : 1 ≤ cap) (as : List (RingAct T P C))
    (q : RingQueue T P C) (h : Run (Lib.Step RingQueue.step) (RingQueue.new cap) as q) :
    as.length ≤ 16 * q.loaded.length + 8 * cap + 3 * (Fintype.card P + Fintype.card C) := by
  obtain ⟨bs, f, -, href⟩ := RingQueue.refines_of_run hcap h
  have hq : q.cap = cap := h.invariant (I := fun q => q.cap = cap)
    (fun _ _ _ hI hst => (RingQueue.step_cap hst).trans hI) rfl
  have hclimb := h.climbs (I := fun _ => True) (μ := RingQueue.progress) (fun _ _ _ _ _ => trivial)
    (fun _ _ _ _ hst => (RingQueue.step_progress hst).ge) trivial
  have hstart : (RingQueue.new cap : RingQueue T P C).progress =
      4 * Fintype.card P + 4 * Fintype.card C := by
    have hp : total Point.rank (RingQueue.new cap : RingQueue T P C).p.point = 4 * Fintype.card P :=
      total_const fun _ => rfl
    have hc : total Point.rank (RingQueue.new cap : RingQueue T P C).c.point = 4 * Fintype.card C :=
      total_const fun _ => rfl
    rw [RingQueue.progress, hp, hc]
    simp [RingQueue.new]
  have hp := Side.rank_le q.p
  have hc := Side.rank_le q.c
  have hblank := href.blank
  have hstored : q.stored.length ≤ q.loaded.length + cap := by omega
  rw [hstart] at hclimb
  unfold RingQueue.progress at hclimb
  omega

/-- Three values go through a queue of one slot, each producer's next to last statement being run
    after the consumer has come. -/
def threeValues : List (RingAct Nat Bool Unit) :=
  [(false, 7), (true, 8), (false, 9)].flatMap fun x =>
    .callPush x.1 x.2 :: List.replicate 6 (.push x.1) ++
      [.callPop (), .push x.1] ++ List.replicate 7 (.pop ())

/-- Of 48 statements two at least are loads, by their number alone. -/
theorem ringQueue_delivers_three :
    ∃ q, Run (Lib.Step RingQueue.step) (RingQueue.new 1 : RingQueue Nat Bool Unit) threeValues q ∧
      threeValues.length = 48 ∧ 2 ≤ q.loaded.length := by
  obtain ⟨q, hrun, -⟩ := exec_exists RingQueue.step
    (RingQueue.new 1 : RingQueue Nat Bool Unit) threeValues (p := fun _ => True) (by decide +kernel)
  have hlength : threeValues.length = 48 := rfl
  have hrate := ringQueue_delivers 1 le_rfl _ q hrun
  rw [hlength, Fintype.card_bool, Fintype.card_unit] at hrate
  exact ⟨q, hrun, hlength, by omega⟩

end Queue

/-! ## The queue without mutexes -/

namespace SemRingQueue

/-- How many statements the thread has run since its last access, or would have before its first. -/
def Point.rank {A : Type} : Point A → Nat
  | .post => 0
  | .increment => 1
  | .wrap => 2
  | .idle => 3
  | .wait _ => 4
  | .access _ => 5
  | .undefined => 6

variable {T A : Type} {cap : Nat} {q q' : SemRingQueue T} {a : Act T}

/-- **Each statement is one step towards the next access.** -/
theorem Thread.rank_advance {s s' : Thread A} {e : Effect A} (hst : s.advance cap = some (s', e)) :
    s.point.rank + 1 ≤ s'.point.rank + 6 * e.accesses := by
  cases hpt : s.point with
  | idle | undefined => simp [Thread.advance, hpt] at hst
  | wrap =>
    by_cases hcap : cap = 0
    · simp only [Thread.advance, hpt, if_pos hcap, Option.some.injEq, Prod.mk.injEq] at hst
      obtain ⟨rfl, rfl⟩ := hst
      simp [Point.rank, Effect.accesses]
    · simp only [Thread.advance, hpt, if_neg hcap, Option.some.injEq, Prod.mk.injEq] at hst
      obtain ⟨rfl, rfl⟩ := hst
      simp [Point.rank, Effect.accesses]
  | wait a | access a | post | increment =>
    simp only [Thread.advance, hpt, Option.some.injEq, Prod.mk.injEq] at hst
    obtain ⟨rfl, rfl⟩ := hst
    simp [Point.rank, Effect.accesses]

/-- The measure: six for each access, and what the threads have run since. -/
def progress (q : SemRingQueue T) : Nat :=
  6 * (q.stored.length + q.loaded.length) + (q.p.point.rank + q.c.point.rank)

theorem push_progress (hst : q.push = some q') : q.progress + 1 ≤ q'.progress := by
  cases hadv : q.p.advance q.cap with
  | none => simp [SemRingQueue.push, hadv] at hst
  | some pe =>
    obtain ⟨p, e⟩ := pe
    have hrank := Thread.rank_advance hadv
    cases e with
    | none | post =>
      simp only [SemRingQueue.push, hadv, Option.some.injEq] at hst
      subst hst
      simp only [Effect.accesses] at hrank
      simp only [progress]
      omega
    | wait =>
      simp only [SemRingQueue.push, hadv, Option.map_eq_some_iff] at hst
      obtain ⟨n, -, rfl⟩ := hst
      simp only [Effect.accesses] at hrank
      simp only [progress]
      omega
    | access v =>
      by_cases hlt : q.p.step < q.ringQueue.length
      · simp only [SemRingQueue.push, hadv, if_pos hlt, Option.some.injEq] at hst
        subst hst
        simp only [Effect.accesses] at hrank
        simp only [progress, List.length_append, List.length_singleton]
        omega
      · simp only [SemRingQueue.push, hadv, if_neg hlt, Option.some.injEq] at hst
        subst hst
        have hpt := Thread.point_of_access hadv
        simp only [progress]
        rw [hpt]
        simp only [Point.rank]
        omega

theorem pop_progress (hst : q.pop = some q') : q.progress + 1 ≤ q'.progress := by
  cases hadv : q.c.advance q.cap with
  | none => simp [SemRingQueue.pop, hadv] at hst
  | some ce =>
    obtain ⟨c, e⟩ := ce
    have hrank := Thread.rank_advance hadv
    cases e with
    | none | post =>
      simp only [SemRingQueue.pop, hadv, Option.some.injEq] at hst
      subst hst
      simp only [Effect.accesses] at hrank
      simp only [progress]
      omega
    | wait =>
      simp only [SemRingQueue.pop, hadv, Option.map_eq_some_iff] at hst
      obtain ⟨n, -, rfl⟩ := hst
      simp only [Effect.accesses] at hrank
      simp only [progress]
      omega
    | access x =>
      cases hw : q.ringQueue[q.c.step]? with
      | none =>
        simp only [SemRingQueue.pop, hadv, hw, Option.some.injEq] at hst
        subst hst
        have hpt := Thread.point_of_access hadv
        simp only [progress]
        rw [hpt]
        simp only [Point.rank]
        omega
      | some w =>
        simp only [SemRingQueue.pop, hadv, hw, Option.some.injEq] at hst
        subst hst
        simp only [Effect.accesses] at hrank
        simp only [progress, List.length_append, List.length_singleton]
        omega

/-- **Every step raises the measure.** -/
theorem step_progress (hst : Lib.Step SemRingQueue.step q a q') : q.progress + 1 ≤ q'.progress := by
  cases a with
  | push => exact push_progress hst
  | pop => exact pop_progress hst
  | callPush v =>
    simp only [Lib.Step, SemRingQueue.step, Option.map_eq_some_iff] at hst
    obtain ⟨p, hp, rfl⟩ := hst
    obtain ⟨hi, rfl⟩ := Thread.call_eq hp
    simp only [progress, hi, Point.rank]
    omega
  | callPop =>
    simp only [Lib.Step, SemRingQueue.step, Option.map_eq_some_iff] at hst
    obtain ⟨c, hc, rfl⟩ := hst
    obtain ⟨hi, rfl⟩ := Thread.call_eq hc
    simp only [progress, hi, Point.rank]
    omega

/-- A producer that cannot run its next statement waits for a blank permit. -/
theorem push_blocked (hp : q.p.point ≠ .idle) (hdef : q.p.point ≠ .undefined)
    (h : q.push = none) : ∃ v, q.p.point = .wait v ∧ q.blankSem = 0 := by
  cases hpt : q.p.point with
  | idle => exact absurd hpt hp
  | undefined => exact absurd hpt hdef
  | wait v =>
    cases hb : q.blankSem with
    | zero => exact ⟨v, rfl, rfl⟩
    | succ n => simp [SemRingQueue.push, Thread.advance, hpt, hb, semWait] at h
  | access v =>
    simp only [SemRingQueue.push, Thread.advance, hpt] at h
    split_ifs at h
  | post | increment => simp [SemRingQueue.push, Thread.advance, hpt] at h
  | wrap => by_cases hcap : q.cap = 0 <;> simp [SemRingQueue.push, Thread.advance, hpt, hcap] at h

/-- A consumer that cannot run its next statement waits for a data permit. -/
theorem pop_blocked (hc : q.c.point ≠ .idle) (hdef : q.c.point ≠ .undefined) (h : q.pop = none) :
    q.c.point = .wait () ∧ q.dataSem = 0 := by
  cases hpt : q.c.point with
  | idle => exact absurd hpt hc
  | undefined => exact absurd hpt hdef
  | wait u =>
    cases hd : q.dataSem with
    | zero => exact ⟨rfl, rfl⟩
    | succ n => simp [SemRingQueue.pop, Thread.advance, hpt, hd, semWait] at h
  | access u =>
    cases hw : q.ringQueue[q.c.step]? <;> simp [SemRingQueue.pop, Thread.advance, hpt, hw] at h
  | post | increment => simp [SemRingQueue.pop, Thread.advance, hpt] at h
  | wrap => by_cases hcap : q.cap = 0 <;> simp [SemRingQueue.pop, Thread.advance, hpt, hcap] at h

/-- With a slot at least, some thread can go on: the one permit that must be somewhere is in a
    semaphore or in the hand of a thread. -/
theorem Refines.exists_step [Inhabited T] {f : Fifo T} (h : q.Refines cap f) (hcap : 1 ≤ cap) :
    ∃ a q', Lib.Step SemRingQueue.step q a q' := by
  by_contra hstuck
  have hnone : ∀ a, q.step a = none := fun a => Option.eq_none_iff_forall_ne_some.2
    fun q' hq' => hstuck ⟨a, q', hq'⟩
  have hprod := h.prod
  have hcons := h.cons
  have hpidle : q.p.point ≠ .idle := fun hi => by
    have hcall := hnone (.callPush default)
    simp [SemRingQueue.step, Thread.call, hi] at hcall
  have hcidle : q.c.point ≠ .idle := fun hi => by
    have hcall := hnone .callPop
    simp [SemRingQueue.step, Thread.call, hi] at hcall
  have hpdef : q.p.point ≠ .undefined := fun hi => by
    rwa [Thread.Ok, hi] at hprod
  have hcdef : q.c.point ≠ .undefined := fun hi => by
    rwa [Thread.Ok, hi] at hcons
  obtain ⟨v, hp, hblank⟩ := push_blocked hpidle hpdef (hnone .push)
  obtain ⟨hc, hdata⟩ := pop_blocked hcidle hcdef (hnone .pop)
  have hb := h.blank
  have hd := h.data
  have hq := h.cap_eq
  rw [hp, hc, hblank, show (Point.wait v).early = 0 from rfl,
    show (Point.wait ()).late = 0 from rfl] at hb
  rw [hp, hc, hdata, show (Point.wait ()).early = 0 from rfl,
    show (Point.wait v).late = 0 from rfl] at hd
  omega

/-- **The queue without mutexes blocks exactly when it has no slot.** -/
theorem semRingQueue_blocks_iff [Inhabited T] (cap : Nat) :
    (∃ as q, Run (Lib.Step SemRingQueue.step) (new cap : SemRingQueue T) as q ∧
      Final (Lib.Step SemRingQueue.step) q) ↔ cap = 0 := by
  constructor
  · rintro ⟨as, q, hrun, hfinal⟩
    by_contra hcap
    obtain ⟨bs, f, -, href⟩ := refines_of_run hrun
    obtain ⟨a, q', hst⟩ := href.exists_step (Nat.pos_of_ne_zero hcap)
    exact hfinal a q' hst
  · rintro rfl
    have hexec : exec SemRingQueue.step (new 0 : SemRingQueue T) [.callPush default, .callPop] =
        some { (new 0 : SemRingQueue T) with
          p := { step := 0, point := .wait default }
          c := { step := 0, point := .wait () } } := rfl
    refine ⟨_, _, exec_run hexec, ?_⟩
    rintro a q' hst
    cases a <;> cases hst

/-- **It delivers.** Whatever the schedule, of `n` statements of the two threads at least
    `(n - 6 * cap - 4) / 12` have been loads of a value. -/
theorem semRingQueue_delivers [Inhabited T] (cap : Nat) (as : List (Act T)) (q : SemRingQueue T)
    (h : Run (Lib.Step SemRingQueue.step) (new cap) as q) :
    as.length ≤ 12 * q.loaded.length + 6 * cap + 4 := by
  obtain ⟨bs, f, -, href⟩ := refines_of_run h
  have hprod := href.prod
  have hcons := href.cons
  have hclimb := h.climbs (I := fun _ => True) (μ := progress) (fun _ _ _ _ _ => trivial)
    (fun _ _ _ _ hst => step_progress hst) trivial
  have hstart : (new cap : SemRingQueue T).progress = 6 := rfl
  have hp : q.p.point.rank ≤ 5 := by
    cases hpt : q.p.point with
    | undefined => rw [Thread.Ok, hpt] at hprod; exact hprod.elim
    | _ => simp [Point.rank]
  have hc : q.c.point.rank ≤ 5 := by
    cases hpt : q.c.point with
    | undefined => rw [Thread.Ok, hpt] at hcons; exact hcons.elim
    | _ => simp [Point.rank]
  have hturn := href.turn
  rw [href.cap_eq] at hturn
  rw [hstart] at hclimb
  unfold progress at hclimb
  omega

/-- Three values go through a queue of one slot, the consumer overtaking the producer's index. -/
def threeValues : List (Act Nat) :=
  [7, 8, 9].flatMap fun v =>
    [.callPush v, .push, .push, .push, .callPop, .pop, .pop, .pop, .push, .push, .pop, .pop]

/-- Of 36 statements three at least are loads, by their number alone. -/
theorem semRingQueue_delivers_three :
    ∃ q, Run (Lib.Step SemRingQueue.step) (new 1 : SemRingQueue Nat) threeValues q ∧
      threeValues.length = 36 ∧ 3 ≤ q.loaded.length := by
  obtain ⟨q, hrun, -⟩ := exec_exists SemRingQueue.step (new 1 : SemRingQueue Nat) threeValues
    (p := fun _ => True) (by decide +kernel)
  have hlength : threeValues.length = 36 := rfl
  have hrate := semRingQueue_delivers 1 _ q hrun
  rw [hlength] at hrate
  exact ⟨q, hrun, hlength, by omega⟩

end SemRingQueue

end SystemCallLearn.Pthread
