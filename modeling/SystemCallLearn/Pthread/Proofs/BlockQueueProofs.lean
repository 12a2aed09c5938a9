import SystemCallLearn.Pthread.BlockQueue
import SystemCallLearn.Lib.Fifo
import SystemCallLearn.Lib.Mutex
import SystemCallLearn.Lib.ThreadCount

/-!
# The blocking queue: order, bound and wakeups

The values come out in the order they went in, in every run (`step_history`). The bound on the size
and the non-empty front need more: the `if` around the wait does not test again, so they hold in the
runs whose waits return only when the test fails (`waitOver`), and only there.

For the wakeups the invariant is a balance (`Awaited`): while a side sleeps, the distance of the
queue from the half-full mark is covered by the threads of that side that are on their way to change
the queue and by the signals that are due.
-/

namespace SystemCallLearn.Pthread.BlockQueue

open SystemCallLearn.Lib

variable {T ι : Type} [DecidableEq ι] [Fintype ι]

/-! ## What a step can do -/

/-- The steps of the queue, by the statement that is run. -/
inductive Moves (q : BlockQueue T ι) : Act T ι → BlockQueue T ι → Prop where
  | enter {i op} (hi : q.point i = .idle) : Moves q (.enter i op) (q.move i (.call op .lock))
  | lock {i op} (hi : q.point i = .call op .lock) (hm : q.mtx = none) :
      Moves q (.run i) { q.move i (.call op .test) with mtx := some i }
  | sleep {i op} (hi : q.point i = .call op .test) (hw : q.mustWait op.kind = true) :
      Moves q (.run i) { q.move i (.call op .sleep) with mtx := none }
  | pass {i op} (hi : q.point i = .call op .test) (hw : q.mustWait op.kind = false) :
      Moves q (.run i) (q.move i (.call op .body))
  | waitReturns {i op} (hi : q.point i = .call op .wake) (hm : q.mtx = none) :
      Moves q (.run i) { q.move i (.call op .body) with mtx := some i }
  | push {i v} (hi : q.point i = .call (.push v) .body) :
      Moves q (.run i) { q.move i (.call (.push v) .signal) with
        bq := q.bq ++ [v], pushed := q.pushed ++ [v] }
  | pop {i v rest} (hi : q.point i = .call .pop .body) (hq : q.bq = v :: rest) :
      Moves q (.run i) { q.move i (.call .pop .signal) with
        bq := rest, popped := q.popped ++ [v] }
  | popEmpty {i} (hi : q.point i = .call .pop .body) (hq : q.bq = []) :
      Moves q (.run i) (q.move i .undefined)
  | quiet {i op} (hi : q.point i = .call op .signal) (hs : q.mustSignal op.kind = false) :
      Moves q (.run i) (q.move i (.call op .unlock))
  | nobody {i op} (hi : q.point i = .call op .signal)
      (hnone : ∀ j, (q.point j).asleep op.kind.other = false) :
      Moves q (.signal i none) (q.move i (.call op .unlock))
  | signal {i j op op'} (hi : q.point i = .call op .signal) (hj : q.point j = .call op' .sleep)
      (hk : op'.kind = op.kind.other) :
      Moves q (.signal i (some j)) ((q.move j (.call op' .wake)).move i (.call op .unlock))
  | unlock {i op} (hi : q.point i = .call op .unlock) :
      Moves q (.run i) { q.move i .idle with mtx := none }
  | awake {j op} (hj : q.point j = .call op .sleep) :
      Moves q (.awake j) (q.move j (.call op .wake))

variable {q q' : BlockQueue T ι} {a : Act T ι}

omit [Fintype ι] in
theorem lockQueue_eq_some {i : ι} {pt : Point T} (h : q.lockQueue i pt = some q') :
    q.mtx = none ∧ q' = { q.move i pt with mtx := some i } := by
  cases hm : q.mtx with
  | some k => simp [lockQueue, hm] at h
  | none =>
    simp only [lockQueue, hm, Option.some.injEq] at h
    exact ⟨rfl, h.symm⟩

omit [DecidableEq ι] [Fintype ι] in
/-- A sleeper of side `k` is asleep in a call of side `k`. -/
theorem Point.asleep_iff {k : Kind} {pt : Point T} :
    pt.asleep k = true ↔ ∃ op, pt = .call op .sleep ∧ op.kind = k := by
  cases pt with
  | call op st => cases st <;> simp [Point.asleep]
  | idle | undefined => simp [Point.asleep]

omit [Fintype ι] in
theorem run_moves {i : ι} (h : q.run i = some q') : Moves q (.run i) q' := by
  cases hi : q.point i with
  | idle | undefined => simp [run, hi] at h
  | call op st =>
    cases st with
    | sleep => simp [run, hi] at h
    | lock =>
      simp only [run, hi] at h
      obtain ⟨hm, rfl⟩ := lockQueue_eq_some h
      exact .lock hi hm
    | test =>
      cases hw : q.mustWait op.kind with
      | true =>
        simp only [run, hi, hw, if_true, Option.some.injEq] at h
        exact h ▸ .sleep hi hw
      | false =>
        simp only [run, hi, hw, Bool.false_eq_true, if_false, Option.some.injEq] at h
        exact h ▸ .pass hi hw
    | wake =>
      simp only [run, hi] at h
      obtain ⟨hm, rfl⟩ := lockQueue_eq_some h
      exact .waitReturns hi hm
    | body =>
      simp only [run, hi, Option.some.injEq] at h
      subst h
      cases op with
      | push v => exact .push hi
      | pop =>
        cases hq : q.bq with
        | nil => simpa [body, hq] using Moves.popEmpty hi hq
        | cons v rest => simpa [body, hq] using Moves.pop hi hq
    | signal =>
      cases hs : q.mustSignal op.kind with
      | true => simp [run, hi, hs] at h
      | false =>
        simp only [run, hi, hs, Bool.false_eq_true, if_false, Option.some.injEq] at h
        exact h ▸ .quiet hi hs
    | unlock =>
      simp only [run, hi, Option.some.injEq] at h
      exact h ▸ .unlock hi

theorem signal_moves {i : ι} {target : Option ι} (h : q.signal i target = some q') :
    Moves q (.signal i target) q' := by
  cases hi : q.point i with
  | idle | undefined => simp [signal, hi] at h
  | call op st =>
    cases st with
    | signal =>
      simp only [signal, hi] at h
      split at h
      · cases target with
        | none =>
          simp only [Option.ite_none_right_eq_some, Option.some.injEq] at h
          obtain ⟨hnone, rfl⟩ := h
          exact .nobody hi hnone
        | some j =>
          simp only [Option.ite_none_right_eq_some, Option.map_eq_some_iff] at h
          obtain ⟨hj, q'', hq'', rfl⟩ := h
          obtain ⟨op', hj', hk⟩ := Point.asleep_iff.1 hj
          simp only [BlockQueue.awake, hj', Option.some.injEq] at hq''
          subst hq''
          exact .signal hi hj' hk
      · cases h
    | _ => simp [signal, hi] at h

/-- **Inversion of a step.** -/
theorem step_moves (h : Step step q a q') : Moves q a q' := by
  cases a with
  | enter i op =>
    cases hi : q.point i <;>
      simp only [Step, step, enter, hi, Option.some.injEq, reduceCtorEq] at h
    exact h ▸ .enter hi
  | run i => exact run_moves h
  | signal i target => exact signal_moves h
  | awake j =>
    cases hj : q.point j with
    | idle | undefined => simp [Step, step, awake, hj] at h
    | call op st =>
      cases st <;> simp only [Step, step, awake, hj, Option.some.injEq, reduceCtorEq] at h
      exact h ▸ .awake hj

/-! ## Order -/

omit [DecidableEq ι] [Fintype ι] in
/-- The abstract queue that the blocking queue stands for. -/
def history (q : BlockQueue T ι) : Fifo T where
  pushed := q.pushed
  popped := q.popped
  items := q.bq

/-- A step is at most one operation of the abstract queue. -/
theorem step_history (h : Step step q a q') :
    ∃ bs, Run (Step Fifo.step) q.history bs q'.history := by
  cases step_moves h with
  | push hi => exact ⟨[.push _], Run.single rfl⟩
  | pop hi hq => exact ⟨[.pop], Run.single (by simp [Step, Fifo.step, history, hq, move])⟩
  | _ => exact ⟨[], Run.nil⟩

/-- In every run the values popped are a prefix of the values pushed. -/
theorem popped_prefix {cap : Nat} {as : List (Act T ι)} (h : Run (Step step) (new cap) as q) :
    q.popped <+: q.pushed := by
  obtain ⟨bs, hrun⟩ := h.abstract history fun _ _ _ => step_history
  exact Fifo.prefix_of_run hrun

/-! ## The bound and the non-empty front -/

omit [DecidableEq ι] [Fintype ι] in
/-- The thread owns the mutex. -/
def Point.inside : Point T → Bool
  | .undefined => true
  | .call _ st => match st with
    | .test | .body | .signal | .unlock => true
    | .lock | .sleep | .wake => false
  | .idle => false

omit [DecidableEq ι] [Fintype ι] in
/-- The queue is within its capacity, and a thread about to change it has room, or a value. -/
structure Bounded (q : BlockQueue T ι) : Prop where
  owner : Owns q.mtx q.point Point.inside
  size : q.bq.length ≤ q.cap
  ready : ∀ i op, q.point i = .call op .body → q.mustWait op.kind = false
  defined : ∀ i, q.point i ≠ .undefined

omit [DecidableEq ι] [Fintype ι] in
theorem new_bounded (cap : Nat) : (new cap : BlockQueue T ι).Bounded where
  owner := owns_none fun _ => rfl
  size := Nat.zero_le _
  ready := fun i op hi => by simp [new] at hi
  defined := fun i hi => by simp [new] at hi

omit [Fintype ι] in
/-- A thread moves on and the queue stays as it is. -/
theorem Bounded.move (h : q.Bounded) {i : ι} {pt : Point T} {m : Option ι}
    (howner : Owns m (Function.update q.point i pt) Point.inside)
    (hbody : ∀ op, pt = .call op .body → q.mustWait op.kind = false) (hpt : pt ≠ .undefined) :
    ({ q.move i pt with mtx := m } : BlockQueue T ι).Bounded := by
  refine ⟨howner, h.size, ?_, ?_⟩
  · intro j op hj
    by_cases hji : j = i
    · subst hji
      exact hbody op (by simpa [BlockQueue.move] using hj)
    · exact h.ready j op (by simpa [BlockQueue.move, hji] using hj)
  · intro j
    by_cases hji : j = i
    · subst hji
      simpa [BlockQueue.move] using hpt
    · simpa [BlockQueue.move, hji] using h.defined j

omit [Fintype ι] in
/-- The owner of the mutex changes the queue within its capacity. Nobody else is at the body. -/
theorem Bounded.change (h : q.Bounded) {i : ι} {op : Op T} {bq pushed popped : List T}
    (hi : q.point i = .call op .body) (hlen : bq.length ≤ q.cap) :
    ({ q.move i (.call op .signal) with bq := bq, pushed := pushed, popped := popped } :
      BlockQueue T ι).Bounded := by
  have hin : (q.point i).inside = true := by rw [hi]; rfl
  refine ⟨h.owner.keep (by rw [hi]; rfl), hlen, ?_, ?_⟩
  · intro j op' hj
    have hne : j ≠ i := fun he => by
      subst he
      simp [BlockQueue.move] at hj
    have hj' : q.point j = .call op' .body := by simpa [BlockQueue.move, hne] using hj
    exact absurd (h.owner.exclusive (by rw [hj']; rfl) hin) hne
  · intro j
    by_cases hji : j = i
    · subst hji
      simp [BlockQueue.move]
    · simpa [BlockQueue.move, hji] using h.defined j

omit [DecidableEq ι] [Fintype ι] in
theorem mustWait_push : q.mustWait .push = false ↔ q.bq.length ≠ q.cap := by
  simp [mustWait, isFull]

omit [DecidableEq ι] [Fintype ι] in
theorem mustWait_pop : q.mustWait .pop = false ↔ q.bq ≠ [] := by
  simp [mustWait, isEmpty]

/-- A step whose wait, if it returns from one, is over keeps the bound. -/
theorem Bounded.step (h : q.Bounded) (hok : q.waitOver a = true) (hst : Step step q a q') :
    q'.Bounded := by
  have howner := h.owner
  cases step_moves hst with
  | enter hi => exact h.move (howner.keep (by rw [hi]; rfl)) (by simp) (by simp)
  | lock hi hm =>
    rw [hm] at howner
    exact h.move (howner.acquire rfl) (by simp) (by simp)
  | sleep hi hw => exact h.move (howner.release (by rw [hi]; rfl) rfl) (by simp) (by simp)
  | pass hi hw =>
    refine h.move (howner.keep (by rw [hi]; rfl)) (?_) (by simp)
    intro op hop
    simp only [Point.call.injEq, and_true] at hop
    exact hop ▸ hw
  | waitReturns hi hm =>
    rw [hm] at howner
    refine h.move (howner.acquire rfl) (?_) (by simp)
    intro op hop
    simp only [Point.call.injEq, and_true] at hop
    subst hop
    simpa [waitOver, hi] using hok
  | push hi =>
    have hroom := mustWait_push.1 (h.ready _ _ hi)
    have hsize := h.size
    exact h.change hi (by rw [List.length_append, List.length_singleton]; omega)
  | pop hi hq =>
    have hsize := h.size
    rw [hq, List.length_cons] at hsize
    exact h.change hi (by omega)
  | popEmpty hi hq => exact absurd hq (mustWait_pop.1 (h.ready _ _ hi))
  | quiet hi _ | nobody hi _ => exact h.move (howner.keep (by rw [hi]; rfl)) (by simp) (by simp)
  | signal hi hj hk =>
    rename_i i j op op'
    have hwoken : (q.move j (.call op' .wake)).Bounded :=
      h.move (howner.keep (by rw [hj]; rfl)) (by simp) (by simp)
    have hij : i ≠ j := fun he => by
      rw [he, hj] at hi
      simp at hi
    refine hwoken.move (hwoken.owner.keep ?_) (by simp) (by simp)
    simp [BlockQueue.move, hij, hi, Point.inside]
  | unlock hi => exact h.move (howner.release (by rw [hi]; rfl) rfl) (by simp) (by simp)
  | awake hj => exact h.move (howner.keep (by rw [hj]; rfl)) (by simp) (by simp)

/-- A wait that returns too early ends in an overfull queue or in a read of an empty one, two
    statements of its thread later. -/
theorem early_return {i : ι} {op : Op T} (hi : q.point i = .call op .wake)
    (hm : q.mtx = none) (hw : q.mustWait op.kind = true) :
    ∃ q', Run (Step step) q [.run i, .run i] q' ∧
      (q.cap < q'.bq.length ∨ q'.point i = .undefined) := by
  have h1 : Step step q (.run i) { q.move i (.call op .body) with mtx := some i } := by
    simp [Step, step, run, hi, lockQueue, hm]
  have h2 : Step step { q.move i (.call op .body) with mtx := some i } (.run i)
      (body { q.move i (.call op .body) with mtx := some i } i op) := by
    simp [Step, step, run, BlockQueue.move]
  refine ⟨_, (Run.single h1).append (Run.single h2), ?_⟩
  cases op with
  | push v =>
    left
    have hfull : q.bq.length = q.cap := by simpa [mustWait, isFull, Op.kind] using hw
    simp [body, BlockQueue.move, hfull]
  | pop =>
    right
    have hempty : q.bq = [] := by simpa [mustWait, isEmpty, Op.kind] using hw
    simp [body, BlockQueue.move, hempty]

theorem step_cap (h : Step step q a q') : q'.cap = q.cap := by
  cases step_moves h <;> rfl

/-- A run whose waits return in time keeps the bound. -/
theorem bounded_of_run {cap : Nat} {as : List (Act T ι)}
    (h : Run (Guarded (fun q a => q.waitOver a = true) (Step step)) (new cap) as q) :
    q.Bounded ∧ q.cap = cap :=
  h.invariant (I := fun q => q.Bounded ∧ q.cap = cap)
    (fun _ _ _ hI hst => ⟨hI.1.step hst.1 hst.2, (step_cap hst.2).trans hI.2⟩)
    ⟨new_bounded cap, rfl⟩

/-- **The queue is bounded and never read empty exactly as long as the waits return in time.** In
    every run in which a thread returns from its wait only when the test that sent it there fails,
    the queue holds at most `cap` values, no thread has read an empty front, and the values popped
    are a prefix of the values pushed. A wait that returns in any other state breaks one of the
    first two. -/
theorem blockQueue_bounded_iff_waitOver (cap : Nat) (as : List (Act T ι)) (q : BlockQueue T ι)
    (h : Run (Guarded (fun q a => q.waitOver a = true) (Step step)) (new cap) as q) :
    (q.bq.length ≤ cap ∧ (∀ i, q.point i ≠ .undefined) ∧ q.popped <+: q.pushed) ∧
    ∀ i op, q.point i = .call op .wake → q.mtx = none → q.waitOver (.run i) = false →
      ∃ q', Run (Step step) q [.run i, .run i] q' ∧
        (cap < q'.bq.length ∨ q'.point i = .undefined) := by
  obtain ⟨hb, hcap⟩ := bounded_of_run h
  refine ⟨⟨hcap ▸ hb.size, hb.defined, popped_prefix (h.mono fun _ _ _ hst => hst.2)⟩, ?_⟩
  intro i op hi hm hw
  have hwait : q.mustWait op.kind = true := by simpa [waitOver, hi] using hw
  obtain ⟨q', hrun, hq'⟩ := early_return hi hm hwait
  exact ⟨q', hrun, hcap ▸ hq'⟩

omit [DecidableEq ι] [Fintype ι] in
/-- The consumer `c` sleeps at an empty queue of two places. The producer `p` fills it and signals
    `c`, the producer `p'` sleeps. The consumer returns and takes both values, and signals `p'`,
    which returns too. -/
def waitsInTime (c p p' : ι) : List (Act Nat ι) :=
  [.enter c .pop, .run c, .run c,
    .enter p (.push 7), .run p, .run p, .run p, .run p, .run p,
    .enter p (.push 8), .run p, .run p, .run p, .signal p (some c), .run p,
    .enter p' (.push 9), .run p', .run p',
    .run c, .run c, .run c, .run c,
    .enter c .pop, .run c, .run c, .run c, .signal c (some p'), .run c,
    .run p', .run p', .run p', .run p']

omit [DecidableEq ι] [Fintype ι] in
/-- The consumer `c` sleeps, the producer `p` signals it, and the consumer `c'` takes the value
    before `c` returns. -/
def waitsTooLong (c p c' : ι) : List (Act Nat ι) :=
  [.enter c .pop, .run c, .run c,
    .enter p (.push 7), .run p, .run p, .run p, .signal p (some c), .run p,
    .enter c' .pop, .run c', .run c', .run c', .run c', .run c']

/-- Both sides wait and return in time; and a wait that would return too late goes wrong. -/
theorem blockQueue_bounded_iff_waitOver_waits :
    (∃ q, Run (Guarded (fun q a => q.waitOver a = true) (Step step))
        (new 2 : BlockQueue Nat (Fin 3)) (waitsInTime 0 1 2) q ∧
      q.popped = [7, 8] ∧ q.pushed = [7, 8, 9] ∧ q.bq.length ≤ 2 ∧
      (∀ i, q.point i ≠ .undefined) ∧ q.popped <+: q.pushed) ∧
    ∃ q q', Run (Guarded (fun q a => q.waitOver a = true) (Step step))
        (new 1 : BlockQueue Nat (Fin 3)) (waitsTooLong 0 1 2) q ∧
      Run (Step step) q [.run 0, .run 0] q' ∧ (1 < q'.bq.length ∨ q'.point 0 = .undefined) := by
  constructor
  · have hall : ((exec (fun q a => if q.waitOver a = true then step q a else none)
        (new 2 : BlockQueue Nat (Fin 3)) (waitsInTime 0 1 2)).any fun q =>
          decide (q.popped = [7, 8] ∧ q.pushed = [7, 8, 9])) = true := by decide +kernel
    obtain ⟨q, hq, hpopped, hpushed⟩ := exists_of_any hall
    have hrun := exec_guarded hq
    obtain ⟨hsize, hdefined, hprefix⟩ := (blockQueue_bounded_iff_waitOver 2 _ q hrun).1
    exact ⟨q, hrun, hpopped, hpushed, hsize, hdefined, hprefix⟩
  · have hall : ((exec (fun q a => if q.waitOver a = true then step q a else none)
        (new 1 : BlockQueue Nat (Fin 3)) (waitsTooLong 0 1 2)).any fun q =>
          decide (q.point 0 = .call .pop .wake ∧ q.mtx = none ∧ q.waitOver (.run 0) = false)) =
        true := by decide +kernel
    obtain ⟨q, hq, hwake, hfree, hover⟩ := exists_of_any hall
    have hrun := exec_guarded hq
    obtain ⟨q', hrun', hbad⟩ :=
      (blockQueue_bounded_iff_waitOver 1 _ q hrun).2 0 .pop hwake hfree hover
    exact ⟨q, q', hrun, hrun', hbad⟩

/-- Consumer 0 sleeps, producer 1 pushes and signals it, consumer 2 takes the value before it has
    the mutex again: it reads an empty front. And with the queue full, a producer that wakes by
    itself overfills it. -/
theorem blockQueue_waits_once :
    (∃ q, Run (Step step) (new 1 : BlockQueue Nat (Fin 3))
        [.enter 0 .pop, .run 0, .run 0,
          .enter 1 (.push 7), .run 1, .run 1, .run 1, .signal 1 (some 0), .run 1,
          .enter 2 .pop, .run 2, .run 2, .run 2, .run 2, .run 2,
          .run 0, .run 0] q ∧ q.point 0 = .undefined) ∧
    ∃ q, Run (Step step) (new 1 : BlockQueue Nat (Fin 2))
        [.enter 0 (.push 7), .run 0, .run 0, .run 0, .signal 0 none, .run 0,
          .enter 1 (.push 8), .run 1, .run 1, .awake 1, .run 1, .run 1] q ∧ 1 < q.bq.length :=
  ⟨exec_exists _ _ _ (by decide), exec_exists _ _ _ (by decide)⟩

/-! ## Wakeups -/

omit [DecidableEq ι] [Fintype ι] in
/-- How far the queue is past the mark at which a side is signalled: above half full for the
    consumers, below half full for the producers. -/
def excess (q : BlockQueue T ι) : Kind → Int
  | .pop => (q.bq.length : Int) - (q.cap / 2 : Nat)
  | .push => (q.cap / 2 : Nat) - (q.bq.length : Int)

omit [DecidableEq ι] [Fintype ι] in
/-- The thread is on its way to change the queue for side `k`. -/
def Point.due (k : Kind) : Point T → Bool
  | .call op .wake | .call op .body => op.kind == k
  | _ => false

omit [DecidableEq ι] [Fintype ι] in
/-- The thread is about to decide whether it signals side `k`. -/
def Point.signals (k : Kind) : Point T → Bool
  | .call op .signal => op.kind.other == k
  | _ => false

omit [DecidableEq ι] in
/-- What covers the excess of side `k`. -/
def cover (q : BlockQueue T ι) (k : Kind) : Nat :=
  count (Point.due k) q.point + count (Point.signals k) q.point

omit [DecidableEq ι] in
/-- The balance of side `k`: while a thread of it sleeps, the excess is covered. -/
def Awaited (k : Kind) (q : BlockQueue T ι) : Prop :=
  ∀ i, (q.point i).asleep k = true → q.excess k ≤ q.cover k

omit [DecidableEq ι] [Fintype ι] in
/-- What a point adds to the cover of side `k`. -/
def Point.covers (k : Kind) (pt : Point T) : Nat := (pt.due k).toNat + (pt.signals k).toNat

/-- Moving one thread changes the cover by what the two points add to it. -/
theorem cover_move (i : ι) (pt : Point T) (k : Kind) :
    (q.move i pt).cover k + (q.point i).covers k = q.cover k + pt.covers k := by
  have hd := count_update (Point.due k) q.point i pt
  have hs := count_update (Point.signals k) q.point i pt
  simp only [cover, Point.covers, BlockQueue.move]
  omega

omit [DecidableEq ι] in
/-- The balance is kept if the side has no excess afterwards, or if it gains no sleeper and its
    excess grows by no more than its cover. -/
theorem Awaited.keep {k : Kind} (h : q.Awaited k)
    (hbal : q'.excess k ≤ 0 ∨
      ((∀ j, (q'.point j).asleep k = true → (q.point j).asleep k = true) ∧
        q'.excess k + q.cover k ≤ q.excess k + q'.cover k)) : q'.Awaited k := by
  intro j hj
  rcases hbal with hle | ⟨hsleep, hle⟩
  · omega
  · have hq := h j (hsleep j hj)
    omega

/-- The queue stays as it is, and the thread does not sleep and covers no less than before. -/
theorem Awaited.move {k : Kind} (h : q.Awaited k) {i : ι} {pt : Point T} {m : Option ι}
    (hpt : pt.asleep k = false) (hcov : (q.point i).covers k ≤ pt.covers k) :
    ({ q.move i pt with mtx := m } : BlockQueue T ι).Awaited k := by
  refine h.keep (Or.inr ⟨fun _ => of_update (Point.asleep k) hpt, ?_⟩)
  have hc := cover_move (q := q) i pt k
  show q.excess k + q.cover k ≤ q.excess k + (q.move i pt).cover k
  omega

omit [DecidableEq ι] [Fintype ι] in
/-- A thread that has to wait finds its side without excess. -/
theorem excess_of_mustWait {k : Kind} (h : q.mustWait k = true) : q.excess k ≤ 0 := by
  cases k with
  | push =>
    have hlen : q.bq.length = q.cap := by simpa [mustWait, isFull] using h
    simp only [excess]
    omega
  | pop =>
    have hlen : q.bq.length = 0 := by simpa [mustWait, isEmpty] using h
    simp only [excess]
    omega

omit [DecidableEq ι] [Fintype ι] in
/-- A side that is not signalled has no excess. -/
theorem excess_of_quiet {k : Kind} (h : q.mustSignal k = false) : q.excess k.other ≤ 0 := by
  cases k with
  | push =>
    have hlen : q.bq.length ≤ q.cap / 2 := by simpa [mustSignal] using h
    simp only [Kind.other, excess]
    omega
  | pop =>
    have hlen : q.cap / 2 ≤ q.bq.length := by simpa [mustSignal] using h
    simp only [Kind.other, excess]
    omega

omit [DecidableEq ι] [Fintype ι] in
/-- By how much a call changes the size of the queue. -/
def Op.gain : Op T → Int
  | .push _ => 1
  | .pop => -1

/-- A thread at its body changes the queue by one value: its own side's excess and cover go down
    together, the other side's go up together. -/
theorem Awaited.change {k : Kind} (h : q.Awaited k) {i : ι} {op : Op T} {bq pushed popped : List T}
    (hi : q.point i = .call op .body) (hlen : (bq.length : Int) = q.bq.length + op.gain) :
    ({ q.move i (.call op .signal) with bq := bq, pushed := pushed, popped := popped } :
      BlockQueue T ι).Awaited k := by
  refine h.keep (Or.inr ⟨fun _ => of_update (Point.asleep k) rfl, ?_⟩)
  have hc := cover_move (q := q) i (.call op .signal) k
  rw [hi] at hc
  show excess { q.move i (.call op .signal) with bq := bq, pushed := pushed, popped := popped } k +
    q.cover k ≤ q.excess k + (q.move i (.call op .signal)).cover k
  -- the body covers the caller's own side, the signal covers the other one
  have hown :
      (Point.call op .body : Point T).covers k +
        (Point.call op .signal : Point T).covers k = 1 := by
    cases op <;> cases k <;> rfl
  cases op with
  | push v =>
    have hlen' : (bq.length : Int) = q.bq.length + 1 := hlen
    cases k with
    | push =>
      have hb : (Point.call (.push v) .body : Point T).covers .push = 1 := rfl
      simp only [excess, BlockQueue.move] at *
      omega
    | pop =>
      have hb : (Point.call (.push v) .body : Point T).covers .pop = 0 := rfl
      simp only [excess, BlockQueue.move] at *
      omega
  | pop =>
    have hlen' : (bq.length : Int) = q.bq.length + -1 := hlen
    cases k with
    | push =>
      have hb : (Point.call .pop .body : Point T).covers .push = 0 := rfl
      simp only [excess, BlockQueue.move] at *
      omega
    | pop =>
      have hb : (Point.call .pop .body : Point T).covers .pop = 1 := rfl
      simp only [excess, BlockQueue.move] at *
      omega

/-- A signal, made or not, covers no side but the one it is for. -/
theorem Awaited.leave {k : Kind} (h : q.Awaited k) {i : ι} {op : Op T}
    (hi : q.point i = .call op .signal) (hk : op.kind.other ≠ k) :
    (q.move i (.call op .unlock)).Awaited k := by
  apply h.move rfl
  rw [hi]
  simp [Point.covers, Point.due, Point.signals, hk]

/-- A signal that wakes a sleeper hands its cover over to it. -/
theorem Awaited.wake {k : Kind} (h : q.Awaited k) {i j : ι} {op op' : Op T}
    (hi : q.point i = .call op .signal) (hj : q.point j = .call op' .sleep)
    (hk : op'.kind = op.kind.other) :
    ((q.move j (.call op' .wake)).move i (.call op .unlock)).Awaited k := by
  have hij : i ≠ j := fun he => by
    rw [he, hj] at hi
    simp at hi
  have hc1 := cover_move (q := q) j (.call op' .wake) k
  have hc2 := cover_move (q := q.move j (.call op' .wake)) i (.call op .unlock) k
  have hpi : (q.move j (.call op' .wake)).point i = .call op .signal := by
    simp [BlockQueue.move, hij, hi]
  rw [hpi] at hc2
  rw [hj] at hc1
  refine h.keep (Or.inr ⟨fun _ hl =>
    of_update (Point.asleep k) rfl (of_update (Point.asleep k) rfl hl), ?_⟩)
  show q.excess k + q.cover k ≤
    q.excess k + ((q.move j (.call op' .wake)).move i (.call op .unlock)).cover k
  simp only [Point.covers, Point.due, Point.signals, hk, Bool.toNat_false] at hc1 hc2
  omega

/-- **Every step keeps the balance of both sides.** -/
theorem Awaited.step {k : Kind} (h : q.Awaited k) (hst : Step step q a q') : q'.Awaited k := by
  cases step_moves hst with
  | enter hi | lock hi _ | pass hi _ | waitReturns hi _ | unlock hi | awake hi =>
    apply h.move rfl
    rw [hi]
    simp [Point.covers, Point.due, Point.signals]
  | @sleep i op hi hw =>
    by_cases hk : op.kind = k
    · subst hk
      exact h.keep (Or.inl (excess_of_mustWait hw))
    · exact h.move (by simpa [Point.asleep] using hk) (by rw [hi]; exact Nat.le_refl _)
  | push hi => exact h.change hi (by simp [Op.gain])
  | pop hi hq => exact h.change hi (by simp [hq, Op.gain])
  | @popEmpty i hi hq =>
    cases k with
    | pop =>
      have hlen : q.bq.length = 0 := by simp [hq]
      refine h.keep (Or.inl ?_)
      simp only [excess, BlockQueue.move]
      omega
    | push => exact h.move rfl (by rw [hi]; exact Nat.le_refl _)
  | @quiet i op hi hs =>
    by_cases hk : op.kind.other = k
    · subst hk
      exact h.keep (Or.inl (excess_of_quiet hs))
    · exact h.leave hi hk
  | @nobody i op hi hnone =>
    by_cases hk : op.kind.other = k
    · subst hk
      intro j hj
      have hj' : (q.point j).asleep op.kind.other = true :=
        of_update (Point.asleep op.kind.other) rfl hj
      rw [hnone j] at hj'
      cases hj'
    · exact h.leave hi hk
  | signal hi hj hk => exact h.wake hi hj hk

/-- **No wakeup past the half-full mark is lost.** In no reachable state is every thread outside the
    queue or asleep with no signal on its way to it, and yet a consumer asleep while the queue is
    more than half full, or a producer asleep while it is less than half full. -/
theorem blockQueue_no_lost_wakeup (cap : Nat) (as : List (Act T ι)) (q : BlockQueue T ι)
    (h : Run (Step step) (new cap) as q)
    (hquiet : ∀ i, q.point i = .idle ∨ ∃ op, q.point i = .call op .sleep) :
    (∀ i, q.point i = .call .pop .sleep → q.bq.length ≤ cap / 2) ∧
    (∀ i v, q.point i = .call (.push v) .sleep → cap / 2 ≤ q.bq.length) := by
  obtain ⟨hcap, hbalance⟩ := h.invariant (I := fun q => q.cap = cap ∧ ∀ k, q.Awaited k)
    (fun _ _ _ hI hst => ⟨(step_cap hst).trans hI.1, fun k => (hI.2 k).step hst⟩)
    ⟨rfl, fun k i hi => by simp [new, Point.asleep] at hi⟩
  -- with every thread outside or asleep, nothing covers an excess
  have hcover : ∀ k, q.cover k = 0 := fun k => by
    have hd : count (Point.due k) q.point = 0 := count_eq_zero fun i => by
      rcases hquiet i with hi | ⟨op, hi⟩ <;> rw [hi] <;> rfl
    have hs : count (Point.signals k) q.point = 0 := count_eq_zero fun i => by
      rcases hquiet i with hi | ⟨op, hi⟩ <;> rw [hi] <;> rfl
    simp only [cover]
    omega
  constructor
  · intro i hi
    have he := hbalance .pop i (by rw [hi]; rfl)
    rw [hcover] at he
    simp only [excess, hcap] at he
    omega
  · intro i v hi
    have he := hbalance .push i (by rw [hi]; rfl)
    rw [hcover] at he
    simp only [excess, hcap] at he
    omega

omit [DecidableEq ι] [Fintype ι] in
/-- Two consumers sleep at an empty queue of two places; the producer fills it, signals one of them
    and sleeps, and that one takes a value. -/
def bothSidesSleep (c c' p : ι) : List (Act Nat ι) :=
  [.enter c .pop, .run c, .run c, .enter c' .pop, .run c', .run c',
    .enter p (.push 7), .run p, .run p, .run p, .run p, .run p,
    .enter p (.push 8), .run p, .run p, .run p, .signal p (some c), .run p,
    .enter p (.push 9), .run p, .run p,
    .run c, .run c, .run c, .run c]

/-- A consumer and the producer sleep with the queue half full. -/
theorem blockQueue_no_lost_wakeup_half :
    ∃ q, Run (Step step) (new 2 : BlockQueue Nat (Fin 3)) (bothSidesSleep 0 1 2) q ∧ q.bq = [8] ∧
      q.point 1 = .call .pop .sleep ∧ q.bq.length ≤ 2 / 2 ∧
      q.point 2 = .call (.push 9) .sleep ∧ 2 / 2 ≤ q.bq.length := by
  obtain ⟨q, hrun, hbq, h0, h1, h2⟩ := exec_exists step (new 2 : BlockQueue Nat (Fin 3))
    (bothSidesSleep 0 1 2) (p := fun q => q.bq = [8] ∧ q.point 0 = .idle ∧
      q.point 1 = .call .pop .sleep ∧ q.point 2 = .call (.push 9) .sleep) (by decide +kernel)
  have hquiet : ∀ i, q.point i = .idle ∨ ∃ op, q.point i = .call op .sleep := by
    intro i
    match i with
    | 0 => exact Or.inl h0
    | 1 => exact Or.inr ⟨.pop, h1⟩
    | 2 => exact Or.inr ⟨.push 9, h2⟩
  obtain ⟨hpop, hpush⟩ := blockQueue_no_lost_wakeup 2 _ q hrun hquiet
  exact ⟨q, hrun, hbq, h1, hpop 1 h1, h2, hpush 2 9 h2⟩

omit [DecidableEq ι] [Fintype ι] in
/-- The consumer sleeps, and the producer pushes one value. -/
def consumerLeft (c p : ι) : List (Act Nat ι) :=
  [.enter c .pop, .run c, .run c, .enter p (.push 7), .run p, .run p, .run p, .run p, .run p]

omit [DecidableEq ι] [Fintype ι] in
/-- The producer fills three places, which signals nobody, and sleeps; the consumer takes a value. -/
def producerLeft (c p : ι) : List (Act Nat ι) :=
  [.enter p (.push 7), .run p, .run p, .run p, .run p, .run p,
    .enter p (.push 8), .run p, .run p, .run p, .signal p none, .run p,
    .enter p (.push 9), .run p, .run p, .run p, .signal p none, .run p,
    .enter p (.push 10), .run p, .run p,
    .enter c .pop, .run c, .run c, .run c, .run c, .run c]

/-- Between empty and half full a consumer sleeps beside a value, and between half full and full a
    producer sleeps beside a free place: nobody is in a call awake, and no signal is on its way. -/
theorem blockQueue_sleeps_unsignalled :
    (∃ q, Run (Step step) (new 5 : BlockQueue Nat (Fin 2)) (consumerLeft 0 1) q ∧
      (∀ i, q.point i = .idle ∨ ∃ op, q.point i = .call op .sleep) ∧
      q.point 0 = .call .pop .sleep ∧ q.bq ≠ []) ∧
    ∃ q, Run (Step step) (new 3 : BlockQueue Nat (Fin 2)) (producerLeft 0 1) q ∧
      (∀ i, q.point i = .idle ∨ ∃ op, q.point i = .call op .sleep) ∧
      q.point 1 = .call (.push 10) .sleep ∧ 3 / 2 < q.bq.length ∧ q.bq.length < 3 := by
  constructor
  · obtain ⟨q, hrun, h0, h1, hbq⟩ := exec_exists step (new 5 : BlockQueue Nat (Fin 2))
      (consumerLeft 0 1)
      (p := fun q => q.point 0 = .call .pop .sleep ∧ q.point 1 = .idle ∧ q.bq ≠ []) (by decide)
    refine ⟨q, hrun, ?_, h0, hbq⟩
    intro i
    match i with
    | 0 => exact Or.inr ⟨.pop, h0⟩
    | 1 => exact Or.inl h1
  · obtain ⟨q, hrun, h0, h1, hbq⟩ := exec_exists step (new 3 : BlockQueue Nat (Fin 2))
      (producerLeft 0 1) (p := fun q => q.point 0 = .idle ∧ q.point 1 = .call (.push 10) .sleep ∧
        3 / 2 < q.bq.length ∧ q.bq.length < 3) (by decide +kernel)
    refine ⟨q, hrun, ?_, h1, hbq⟩
    intro i
    match i with
    | 0 => exact Or.inl h0
    | 1 => exact Or.inr ⟨.push 10, h1⟩

end SystemCallLearn.Pthread.BlockQueue
