import SystemCallLearn.Pthread.ThreadPool
import SystemCallLearn.Lib.Fifo
import SystemCallLearn.Lib.Mutex
import SystemCallLearn.Lib.ThreadCount

/-!
# The thread pool: every task once, and no lost wakeup

A worker at `PopTask` owns the mutex since its test, so the queue is not empty (`Ok.ready`). A
worker that has removed a task holds its place until it has run it, and no two workers hold one
place (`Ok.held`).

For the wakeups the invariant is a balance (`Awaited`): while a worker sleeps, every queued task is
covered by a `PushTask` that has still to signal, or by a worker that has been woken and has neither
removed a task nor gone back to sleep since.
-/

namespace SystemCallLearn.Pthread.ThreadPool

open SystemCallLearn.Lib

variable {T ι : Type} [DecidableEq ι] [Fintype ι]

/-! ## What a step can do -/

omit [DecidableEq ι] [Fintype ι] in
/-- The point behind a statement that takes the mutex. -/
def Point.locks : Point T → Option (Point T)
  | .lock => some (.test false)
  | .wake => some (.test true)
  | .pushLock v => some (.push v)
  | _ => none

omit [DecidableEq ι] [Fintype ι] in
/-- The point behind a statement that releases the mutex and does nothing else. -/
def Point.unlocks : Point T → Option (Point T)
  | .unlock t place => some (.task t place)
  | .pushUnlock => some .wakeup
  | _ => none

/-- The steps of the pool, by the statement that is run. -/
inductive Moves (q : ThreadPool T ι) : Act T ι → ThreadPool T ι → Prop where
  | rountine {i} (hi : q.point i = .idle) : Moves q (.rountine i) (q.move i .lock)
  | pushTask {i v} (hi : q.point i = .idle) : Moves q (.pushTask i v) (q.move i (.pushLock v))
  | lock {i pt} (hi : (q.point i).locks = some pt) (hm : q.mtx = none) :
      Moves q (.run i) { q.move i pt with mtx := some i }
  | sleep {i w} (hi : q.point i = .test w) (hq : q.taskQueue = []) :
      Moves q (.run i) { q.move i .sleep with mtx := none }
  | pass {i w} (hi : q.point i = .test w) (hq : q.taskQueue ≠ []) :
      Moves q (.run i) (q.move i (.popTask w))
  | popTask {i w t rest} (hi : q.point i = .popTask w) (hq : q.taskQueue = t :: rest) :
      Moves q (.run i) { q.move i (.unlock t q.removed.length) with
        taskQueue := rest, removed := q.removed ++ [(i, t)] }
  | popEmpty {i w} (hi : q.point i = .popTask w) (hq : q.taskQueue = []) :
      Moves q (.run i) (q.move i .undefined)
  | unlock {i pt} (hi : (q.point i).unlocks = some pt) :
      Moves q (.run i) { q.move i pt with mtx := none }
  | task {i t place} (hi : q.point i = .task t place) :
      Moves q (.run i) { q.move i .lock with
        ran := q.ran ++ [{ worker := i, place := place, task := t }] }
  | push {i v} (hi : q.point i = .push v) :
      Moves q (.run i) { q.move i .pushUnlock with
        taskQueue := q.taskQueue ++ [v], pushed := q.pushed ++ [v] }
  | wakeup {i woken} (hi : q.point i = .wakeup) (hw : ∀ j ∈ woken, (q.point j).asleep = true)
      (hnone : woken = [] → ∀ j, (q.point j).asleep = false) :
      Moves q (.wakeup i woken)
        ({ q with point := fun j => if j ∈ woken then .wake else q.point j }.move i .idle)
  | awake {j} (hj : q.point j = .sleep) : Moves q (.awake j) (q.move j .wake)

variable {q q' : ThreadPool T ι} {a : Act T ι}

omit [DecidableEq ι] [Fintype ι] in
theorem Point.asleep_iff {pt : Point T} : pt.asleep = true ↔ pt = .sleep := by
  cases pt <;> simp [Point.asleep]

omit [DecidableEq ι] [Fintype ι] in
theorem Point.locks_cases {pt x : Point T} (h : pt.locks = some x) :
    (pt = .lock ∧ x = .test false) ∨ (pt = .wake ∧ x = .test true) ∨
      ∃ v, pt = .pushLock v ∧ x = .push v := by
  cases pt <;> simp only [Point.locks, Option.some.injEq, reduceCtorEq] at h <;> simp [← h]

omit [DecidableEq ι] [Fintype ι] in
theorem Point.unlocks_cases {pt x : Point T} (h : pt.unlocks = some x) :
    (∃ t n, pt = .unlock t n ∧ x = .task t n) ∨ (pt = .pushUnlock ∧ x = .wakeup) := by
  cases pt <;> simp only [Point.unlocks, Option.some.injEq, reduceCtorEq] at h <;> simp [← h]

omit [DecidableEq ι] [Fintype ι] in
/-- A thread that signals is not asleep: it does not wake itself. -/
theorem notMem_woken {i : ι} {woken : List ι} (hi : q.point i = .wakeup)
    (hw : ∀ j ∈ woken, (q.point j).asleep = true) : i ∉ woken := by
  intro hmem
  have hs := hw i hmem
  rw [hi] at hs
  cases hs

omit [Fintype ι] in
theorem lock_moves {i : ι} {pt : Point T} (hi : (q.point i).locks = some pt)
    (h : q.lock i pt = some q') : Moves q (.run i) q' := by
  cases hm : q.mtx with
  | some k => simp [ThreadPool.lock, hm] at h
  | none =>
    simp only [ThreadPool.lock, hm, Option.some.injEq] at h
    exact h ▸ .lock hi hm

omit [Fintype ι] in
theorem run_moves {i : ι} (h : q.run i = some q') : Moves q (.run i) q' := by
  cases hi : q.point i with
  | idle | sleep | wakeup | undefined => simp [run, hi] at h
  | lock | wake | pushLock v =>
    simp only [run, hi] at h
    exact lock_moves (by rw [hi]; rfl) h
  | test w =>
    cases hq : q.taskQueue with
    | nil =>
      simp only [run, hi, isEmpey, hq, List.isEmpty_nil, if_true, Option.some.injEq] at h
      exact h ▸ .sleep hi hq
    | cons t rest =>
      simp only [run, hi, isEmpey, hq, List.isEmpty_cons, Bool.false_eq_true, if_false,
        Option.some.injEq] at h
      exact h ▸ .pass hi (by simp [hq])
  | popTask w =>
    simp only [run, hi, Option.some.injEq] at h
    subst h
    cases hq : q.taskQueue with
    | nil => simpa [ThreadPool.popTask, hq] using Moves.popEmpty hi hq
    | cons t rest => simpa [ThreadPool.popTask, hq] using Moves.popTask hi hq
  | unlock t place | pushUnlock =>
    simp only [run, hi, Option.some.injEq] at h
    exact h ▸ .unlock (by rw [hi]; rfl)
  | task t place =>
    simp only [run, hi, Option.some.injEq] at h
    exact h ▸ .task hi
  | push v =>
    simp only [run, hi, Option.some.injEq] at h
    exact h ▸ .push hi

/-- **Inversion of a step.** -/
theorem step_moves (h : Step step q a q') : Moves q a q' := by
  cases a with
  | rountine i =>
    cases hi : q.point i <;>
      simp only [Step, step, enter, hi, Option.some.injEq, reduceCtorEq] at h
    exact h ▸ .rountine hi
  | pushTask i v =>
    cases hi : q.point i <;>
      simp only [Step, step, enter, hi, Option.some.injEq, reduceCtorEq] at h
    exact h ▸ .pushTask hi
  | run i => exact run_moves h
  | wakeup i woken =>
    cases hi : q.point i <;>
      simp only [Step, step, ThreadPool.wakeup, hi, Option.ite_none_right_eq_some,
        Option.some.injEq, reduceCtorEq] at h
    obtain ⟨⟨hw, hnone⟩, rfl⟩ := h
    exact .wakeup hi hw hnone
  | awake j =>
    cases hj : q.point j <;>
      simp only [Step, step, ThreadPool.awake, hj, Option.some.injEq, reduceCtorEq] at h
    exact h ▸ .awake hj

/-! ## Order -/

omit [DecidableEq ι] [Fintype ι] in
/-- The abstract queue that the pool stands for. -/
def history (q : ThreadPool T ι) : Fifo T where
  pushed := q.pushed
  popped := q.removed.map Prod.snd
  items := q.taskQueue

/-- A step is at most one operation of the abstract queue. -/
theorem step_history (h : Step step q a q') :
    ∃ bs, Run (Step Fifo.step) q.history bs q'.history := by
  cases step_moves h with
  | push hi => exact ⟨[.push _], Run.single rfl⟩
  | popTask hi hq => exact ⟨[.pop], Run.single (by simp [Step, Fifo.step, history, hq, move])⟩
  | _ => exact ⟨[], Run.nil⟩

/-- Every run of the pool is a run of the abstract queue. -/
theorem history_of_run {as : List (Act T ι)} (h : Run (Step step) new as q) :
    ∃ bs, Run (Step Fifo.step) Fifo.empty bs q.history := by
  obtain ⟨bs, hrun⟩ := h.abstract history fun _ _ _ => step_history
  exact ⟨bs, hrun⟩

/-! ## Every task once -/

omit [DecidableEq ι] [Fintype ι] in
/-- The thread owns the mutex. -/
def Point.inside : Point T → Bool
  | .test _ | .popTask _ | .unlock _ _ | .push _ | .pushUnlock | .undefined => true
  | .idle | .lock | .sleep | .wake | .task _ _ | .pushLock _ | .wakeup => false

omit [DecidableEq ι] [Fintype ι] in
/-- The task that the thread has removed and not run yet, with its place. -/
def Point.holding : Point T → Option (T × Nat)
  | .unlock t place | .task t place => some (t, place)
  | _ => none

omit [DecidableEq ι] [Fintype ι] in
/-- The places of the tasks run. -/
def places (q : ThreadPool T ι) : List Nat := q.ran.map Ran.place

omit [DecidableEq ι] [Fintype ι] in
/-- The invariant of the pool: a worker at `PopTask` finds a task, a worker holds the task that it
    removed, which has not been run, and every task run was run once, by the worker that removed
    it. -/
structure Ok (q : ThreadPool T ι) : Prop where
  owner : Owns q.mtx q.point Point.inside
  ready : ∀ i w, q.point i = .popTask w → q.taskQueue ≠ []
  defined : ∀ i, q.point i ≠ .undefined
  held : ∀ i t n, (q.point i).holding = some (t, n) → q.removed[n]? = some (i, t) ∧ n ∉ q.places
  done : ∀ r ∈ q.ran, q.removed[r.place]? = some (r.worker, r.task)
  once : q.places.Nodup

omit [DecidableEq ι] [Fintype ι] in
theorem new_ok : (new : ThreadPool T ι).Ok where
  owner := owns_none fun _ => rfl
  ready := fun i w h => by cases h
  defined := fun i h => by cases h
  held := fun i t n h => by cases h
  done := fun r hr => by cases hr
  once := List.nodup_nil

omit [Fintype ι] in
/-- A thread goes on without touching the queue, and holds what it held or nothing. -/
theorem Ok.move (h : q.Ok) {i : ι} {pt : Point T} {m : Option ι}
    (howner : Owns m (Function.update q.point i pt) Point.inside)
    (hready : ∀ w, pt = .popTask w → q.taskQueue ≠ []) (hdef : pt ≠ .undefined)
    (hheld : pt.holding = none ∨ pt.holding = (q.point i).holding) :
    ({ q.move i pt with mtx := m } : ThreadPool T ι).Ok := by
  refine ⟨howner, ?_, ?_, ?_, h.done, h.once⟩
  · intro j w hj
    by_cases hji : j = i
    · subst hji
      exact hready w (by simpa [ThreadPool.move] using hj)
    · exact h.ready j w (by simpa [ThreadPool.move, hji] using hj)
  · intro j
    by_cases hji : j = i
    · subst hji
      simpa [ThreadPool.move] using hdef
    · simpa [ThreadPool.move, hji] using h.defined j
  · intro j t n hj
    by_cases hji : j = i
    · subst hji
      simp only [ThreadPool.move, Function.update_self] at hj
      rcases hheld with hnone | hsame
      · rw [hnone] at hj
        cases hj
      · exact h.held j t n (hsame ▸ hj)
    · exact h.held j t n (by simpa [ThreadPool.move, hji] using hj)

omit [DecidableEq ι] [Fintype ι] in
/-- Sleepers wake. -/
theorem Ok.wakes (h : q.Ok) {f : ι → Point T}
    (hf : ∀ j, f j = q.point j ∨ q.point j = .sleep ∧ f j = .wake) :
    ({ q with point := f } : ThreadPool T ι).Ok := by
  refine ⟨?_, ?_, ?_, ?_, h.done, h.once⟩
  · intro j
    rcases hf j with hj | ⟨hs, hj⟩
    · simpa [hj] using h.owner j
    · simpa [hj, hs, Point.inside] using h.owner j
  · intro j w hj
    rcases hf j with hsame | ⟨-, hwake⟩
    · exact h.ready j w (hsame.symm.trans hj)
    · simp [hwake] at hj
  · intro j
    rcases hf j with hsame | ⟨-, hwake⟩
    · simpa [hsame] using h.defined j
    · simp [hwake]
  · intro j t n hj
    rcases hf j with hsame | ⟨-, hwake⟩
    · exact h.held j t n (by simpa [hsame] using hj)
    · simp [hwake, Point.holding] at hj

omit [Fintype ι] in
/-- A worker removes the first task and holds its place, which nobody has held before. -/
theorem Ok.popTask (h : q.Ok) {i : ι} {w : Bool} {t : T} {rest : List T}
    (hi : q.point i = .popTask w) :
    ({ q.move i (.unlock t q.removed.length) with
        taskQueue := rest, removed := q.removed ++ [(i, t)] } : ThreadPool T ι).Ok := by
  have hold : ∀ {n : Nat} {x : ι × T}, q.removed[n]? = some x →
      (q.removed ++ [(i, t)])[n]? = some x := by
    intro n x hn
    rw [List.getElem?_append_left (List.getElem?_eq_some_iff.1 hn).1]
    exact hn
  refine ⟨h.owner.keep (by rw [hi]; rfl), ?_, ?_, ?_, fun r hr => hold (h.done r hr), h.once⟩
  · intro j w' hj
    -- another worker at `PopTask` would own the mutex too
    have hji : j ≠ i := fun he => by simp [ThreadPool.move, he] at hj
    have hj' : q.point j = .popTask w' := by simpa [ThreadPool.move, hji] using hj
    exact absurd (h.owner.exclusive (by rw [hj']; rfl) (by rw [hi]; rfl)) hji
  · intro j
    by_cases hji : j = i
    · simp [ThreadPool.move, hji]
    · simpa [ThreadPool.move, hji] using h.defined j
  · intro j s n hj
    by_cases hji : j = i
    · subst hji
      simp only [ThreadPool.move, Function.update_self, Point.holding, Option.some.injEq,
        Prod.mk.injEq] at hj
      obtain ⟨rfl, rfl⟩ := hj
      refine ⟨by simp, ?_⟩
      intro hmem
      obtain ⟨r, hr, hplace⟩ := List.mem_map.1 hmem
      have hlt := (List.getElem?_eq_some_iff.1 (h.done r hr)).1
      omega
    · obtain ⟨hrem, hnot⟩ := h.held j s n (by simpa [ThreadPool.move, hji] using hj)
      exact ⟨hold hrem, hnot⟩

omit [Fintype ι] in
/-- A worker runs the task it holds. The places that the others hold are other ones. -/
theorem Ok.task (h : q.Ok) {i : ι} {t : T} {place : Nat} (hi : q.point i = .task t place) :
    ({ q.move i .lock with
        ran := q.ran ++ [{ worker := i, place := place, task := t }] } : ThreadPool T ι).Ok := by
  obtain ⟨hrem, hnot⟩ := h.held i t place (by rw [hi]; rfl)
  have hmove : ({ q.move i .lock with mtx := q.mtx } : ThreadPool T ι).Ok :=
    h.move (h.owner.keep (by rw [hi]; rfl)) (fun w hw => by cases hw) (fun hu => by cases hu)
      (.inl rfl)
  refine ⟨hmove.owner, hmove.ready, hmove.defined, ?_, ?_, ?_⟩
  · intro j s n hj
    have hji : j ≠ i := fun he => by simp [ThreadPool.move, he, Point.holding] at hj
    obtain ⟨hremj, hnotj⟩ := h.held j s n (by simpa [ThreadPool.move, hji] using hj)
    refine ⟨hremj, ?_⟩
    simp only [places, List.map_append, List.map_cons, List.map_nil, List.mem_append,
      List.mem_singleton, not_or]
    refine ⟨hnotj, ?_⟩
    rintro rfl
    exact hji (Prod.mk.inj (Option.some.inj (hremj.symm.trans hrem))).1
  · intro r hr
    rcases List.mem_append.1 hr with hr | hr
    · exact h.done r hr
    · rw [List.mem_singleton.1 hr]
      exact hrem
  · simp only [places, List.map_append, List.map_cons, List.map_nil]
    exact List.nodup_append.2 ⟨h.once, List.nodup_singleton _, fun n hn m hm => by
      rw [List.mem_singleton.1 hm]
      rintro rfl
      exact hnot hn⟩

/-- **Every step keeps the invariant.** -/
theorem Ok.step (h : q.Ok) (hst : Step step q a q') : q'.Ok := by
  cases step_moves hst with
  | rountine hi | pushTask hi =>
    exact h.move (h.owner.keep (by rw [hi]; rfl)) (fun w hw => by cases hw)
      (fun hu => by cases hu) (.inl rfl)
  | @lock i pt hi hm =>
    have howner := h.owner
    rw [hm] at howner
    rcases Point.locks_cases hi with ⟨-, rfl⟩ | ⟨-, rfl⟩ | ⟨v, -, rfl⟩ <;>
      exact h.move (howner.acquire rfl) (fun w hw => by cases hw) (fun hu => by cases hu) (.inl rfl)
  | sleep hi hq =>
    exact h.move (h.owner.release (by rw [hi]; rfl) rfl) (fun w hw => by cases hw)
      (fun hu => by cases hu) (.inl rfl)
  | pass hi hq =>
    exact h.move (h.owner.keep (by rw [hi]; rfl)) (fun _ _ => hq) (fun hu => by cases hu) (.inl rfl)
  | popTask hi hq => exact h.popTask hi
  | popEmpty hi hq => exact absurd hq (h.ready _ _ hi)
  | @unlock i pt hi =>
    rcases Point.unlocks_cases hi with ⟨t, place, hpt, rfl⟩ | ⟨hpt, rfl⟩ <;>
      exact h.move (h.owner.release (by rw [hpt]; rfl) rfl) (fun w hw => by cases hw)
        (fun hu => by cases hu) (.inr (by rw [hpt]; rfl))
  | task hi => exact h.task hi
  | @push i v hi =>
    have hmove : ({ q.move i .pushUnlock with mtx := q.mtx } : ThreadPool T ι).Ok :=
      h.move (h.owner.keep (by rw [hi]; rfl)) (fun w hw => by cases hw) (fun hu => by cases hu)
        (.inl rfl)
    exact ⟨hmove.owner, fun _ _ _ => by simp, hmove.defined, hmove.held, hmove.done, hmove.once⟩
  | @wakeup i woken hi hw hnone =>
    have hwakes := h.wakes (f := fun j => if j ∈ woken then .wake else q.point j) fun j => by
      by_cases hj : j ∈ woken
      · exact .inr ⟨Point.asleep_iff.1 (hw j hj), if_pos hj⟩
      · exact .inl (if_neg hj)
    have hi' : i ∉ woken := notMem_woken hi hw
    exact hwakes.move (hwakes.owner.keep (by simp [hi', hi, Point.inside]))
      (fun w hw => by cases hw) (fun hu => by cases hu) (.inl rfl)
  | awake hj =>
    exact h.move (h.owner.keep (by rw [hj]; rfl)) (fun w hw => by cases hw)
      (fun hu => by cases hu) (.inl rfl)

/-- **Every task is run at most once, by the worker that removed it.** In every state of every run a
    worker about to call `PopTask` finds a task; the tasks pushed are those removed followed by
    those still queued, so that the tasks removed are a prefix of them; and the tasks run have
    different places among those removed, each run by the worker that removed it. -/
theorem threadPool_runs_once (as : List (Act T ι)) (q : ThreadPool T ι)
    (h : Run (Step step) new as q) :
    (∀ i w, q.point i = .popTask w → q.taskQueue ≠ []) ∧ (∀ i, q.point i ≠ .undefined) ∧
    q.pushed = q.removed.map Prod.snd ++ q.taskQueue ∧ q.removed.map Prod.snd <+: q.pushed ∧
    (q.ran.map Ran.place).Nodup ∧
    ∀ r ∈ q.ran, q.removed[r.place]? = some (r.worker, r.task) := by
  have hok : q.Ok := h.invariant (fun _ _ _ hI hst => hI.step hst) new_ok
  obtain ⟨bs, hrun⟩ := history_of_run h
  exact ⟨hok.ready, hok.defined, Fifo.conserves_of_run hrun, Fifo.prefix_of_run hrun, hok.once,
    hok.done⟩

/-- Worker 0 sleeps; its task is pushed and the signal wakes it, but worker 1 takes the task before
    it has the mutex again: worker 0 goes back to sleep, and the task is run by worker 1. -/
theorem threadPool_runs_once_stolen :
    ∃ q, Run (Step step) (new : ThreadPool Nat (Fin 3))
        [.rountine 0, .run 0, .run 0, .pushTask 2 7, .run 2, .run 2, .run 2, .wakeup 2 [0],
          .rountine 1, .run 1, .run 1, .run 1, .run 1, .run 1, .run 0, .run 0] q ∧
      q.point 0 = .sleep ∧ q.ran = [{ worker := 1, place := 0, task := 7 }] ∧
      q.removed[0]? = some (1, 7) ∧ q.pushed = q.removed.map Prod.snd ++ q.taskQueue := by
  obtain ⟨q, hrun, h0, hran⟩ := exec_exists step (new : ThreadPool Nat (Fin 3))
    [.rountine 0, .run 0, .run 0, .pushTask 2 7, .run 2, .run 2, .run 2, .wakeup 2 [0],
      .rountine 1, .run 1, .run 1, .run 1, .run 1, .run 1, .run 0, .run 0]
    (p := fun q => q.point 0 = .sleep ∧ q.ran = [{ worker := 1, place := 0, task := 7 }])
    (by decide)
  obtain ⟨-, -, hqueue, -, -, hdone⟩ := threadPool_runs_once _ q hrun
  exact ⟨q, hrun, h0, hran, hdone { worker := 1, place := 0, task := 7 } (by simp [hran]), hqueue⟩

/-! ## Wakeups -/

omit [DecidableEq ι] [Fintype ι] in
/-- The thread has queued a task and not signalled yet. -/
def Point.due : Point T → Bool
  | .pushUnlock | .wakeup => true
  | _ => false

omit [DecidableEq ι] [Fintype ι] in
/-- The worker has been woken and has not tested the queue again yet. -/
def Point.notRechecked : Point T → Bool
  | .wake | .test true => true
  | _ => false

omit [DecidableEq ι] [Fintype ι] in
/-- The worker has been woken and has neither removed a task nor gone back to sleep since. -/
def Point.onTheWay : Point T → Bool
  | .wake | .test true | .popTask true => true
  | _ => false

omit [DecidableEq ι] in
/-- What covers the queued tasks. -/
def cover (q : ThreadPool T ι) : Nat := count Point.due q.point + count Point.onTheWay q.point

omit [DecidableEq ι] in
/-- The balance: while a worker sleeps, the queued tasks are covered. -/
def Awaited (q : ThreadPool T ι) : Prop :=
  ∀ i, (q.point i).asleep = true → q.taskQueue.length ≤ q.cover

omit [DecidableEq ι] [Fintype ι] in
/-- What a point adds to the cover. -/
def Point.covers (pt : Point T) : Nat := pt.due.toNat + pt.onTheWay.toNat

/-- Moving one thread changes the cover by what the two points add to it. -/
theorem cover_move (i : ι) (pt : Point T) :
    (q.move i pt).cover + (q.point i).covers = q.cover + pt.covers := by
  have hd := count_update Point.due q.point i pt
  have hw := count_update Point.onTheWay q.point i pt
  simp only [cover, Point.covers, ThreadPool.move]
  omega

/-- A thread goes on to a point where it does not sleep, and the queue grows by no more than the
    cover. -/
theorem Awaited.move (h : q.Awaited) {i : ι} {pt : Point T} (hpt : pt.asleep = false)
    (hpoint : q'.point = (q.move i pt).point)
    (hbal : q'.taskQueue.length + (q.point i).covers ≤ q.taskQueue.length + pt.covers) :
    q'.Awaited := by
  intro j hj
  rw [hpoint] at hj
  have hq := h j (of_update Point.asleep hpt hj)
  have hc := cover_move (q := q) i pt
  have hcover : q'.cover = (q.move i pt).cover := by simp only [cover, hpoint]
  omega

/-- A signal that wakes somebody adds to the threads on the way. -/
theorem cover_wakeup {i : ι} {woken : List ι} (hi : q.point i = .wakeup)
    (hw : ∀ j ∈ woken, (q.point j).asleep = true) (hne : woken ≠ []) :
    q.cover ≤ ({ q with point := fun j => if j ∈ woken then .wake else q.point j }.move i
      .idle : ThreadPool T ι).cover := by
  have hdue : count Point.due (fun j => if j ∈ woken then .wake else q.point j) =
      count Point.due q.point := by
    apply count_congr
    intro j
    by_cases hj : j ∈ woken
    · rw [if_pos hj, Point.asleep_iff.1 (hw j hj)]
      rfl
    · rw [if_neg hj]
  have hway : count Point.onTheWay q.point <
      count Point.onTheWay (fun j => if j ∈ woken then .wake else q.point j) := by
    obtain ⟨k, hk⟩ := List.exists_mem_of_ne_nil _ hne
    refine count_lt (i := k) ?_ ?_ ?_
    · intro j hj
      have hnot : j ∉ woken := fun hmem => by
        rw [Point.asleep_iff.1 (hw j hmem)] at hj
        cases hj
      rwa [if_neg hnot]
    · rw [Point.asleep_iff.1 (hw k hk)]
      rfl
    · rw [if_pos hk]
      rfl
  have hi' : i ∉ woken := notMem_woken hi hw
  have hmove := cover_move
    (q := { q with point := fun j => if j ∈ woken then .wake else q.point j }) i .idle
  simp only [if_neg hi', hi] at hmove
  simp only [cover, Point.covers, Point.due, Point.onTheWay, Bool.toNat_false, Bool.toNat_true]
    at hmove ⊢
  omega

/-- **Every step keeps the balance.** -/
theorem Awaited.step (h : q.Awaited) (hst : Step step q a q') : q'.Awaited := by
  cases step_moves hst with
  | rountine hi | pushTask hi => exact h.move rfl rfl (by rw [hi]; exact Nat.le_refl _)
  | awake hj =>
    refine h.move rfl rfl ?_
    rw [hj]
    exact Nat.le_succ _
  | task hi => exact h.move rfl rfl (by rw [hi]; exact Nat.le_refl _)
  | @lock i pt hi hm =>
    rcases Point.locks_cases hi with ⟨hpt, rfl⟩ | ⟨hpt, rfl⟩ | ⟨v, hpt, rfl⟩ <;>
      exact h.move rfl rfl (by rw [hpt]; exact Nat.le_refl _)
  | @unlock i pt hi =>
    rcases Point.unlocks_cases hi with ⟨t, place, hpt, rfl⟩ | ⟨hpt, rfl⟩ <;>
      exact h.move rfl rfl (by rw [hpt]; exact Nat.le_refl _)
  | sleep hi hq =>
    intro j _
    simp [ThreadPool.move, hq]
  | @pass i w hi hq =>
    refine h.move rfl rfl ?_
    rw [hi]
    cases w <;> exact Nat.le_refl _
  | @popTask i w t rest hi hq =>
    refine h.move rfl rfl ?_
    rw [hi, hq]
    cases w <;> simp [Point.covers, Point.due, Point.onTheWay]
  | popEmpty hi hq =>
    intro j _
    simp [ThreadPool.move, hq]
  | push hi =>
    refine h.move rfl rfl ?_
    rw [hi]
    simp [Point.covers, Point.due, Point.onTheWay]
  | @wakeup i woken hi hw hnone =>
    intro j hj
    have hj' : ((if j ∈ woken then .wake else q.point j : Point T)).asleep = true :=
      of_update Point.asleep (f := fun j => if j ∈ woken then .wake else q.point j) rfl hj
    have hnot : j ∉ woken := fun hmem => by
      rw [if_pos hmem] at hj'
      cases hj'
    rw [if_neg hnot] at hj'
    by_cases hne : woken = []
    · rw [hnone hne j] at hj'
      cases hj'
    · exact Nat.le_trans (h j hj') (cover_wakeup hi hw hne)

/-- **No wakeup is lost.** In every reachable state in which some worker is asleep, the `PushTask`
    calls that have queued their task and not signalled yet and the workers that have been woken and
    have neither removed a task nor gone back to sleep since are at least as many as the queued
    tasks. Where no such worker stands between its test and its `PopTask`, the workers that have not
    tested the queue again are enough. And with a task queued, some thread is one of these. -/
theorem threadPool_no_lost_wakeup (as : List (Act T ι)) (q : ThreadPool T ι)
    (h : Run (Step step) new as q) (i : ι) (hi : q.point i = .sleep) :
    q.taskQueue.length ≤ count Point.due q.point + count Point.onTheWay q.point ∧
    ((∀ j, q.point j ≠ .popTask true) →
      q.taskQueue.length ≤ count Point.due q.point + count Point.notRechecked q.point) ∧
    (q.taskQueue ≠ [] → ∃ j, (q.point j).due = true ∨ (q.point j).onTheWay = true) := by
  have hawaited : q.Awaited := h.invariant (fun _ _ _ hI hst => hI.step hst)
    fun j hj => by cases hj
  have hle : q.taskQueue.length ≤ count Point.due q.point + count Point.onTheWay q.point :=
    hawaited i (by rw [hi]; rfl)
  refine ⟨hle, ?_, ?_⟩
  · intro hnone
    have heq : count Point.onTheWay q.point = count Point.notRechecked q.point := by
      apply count_congr
      intro j
      cases hj : q.point j with
      | popTask w =>
        cases w with
        | false => rfl
        | true => exact absurd hj (hnone j)
      | test w => cases w <;> rfl
      | _ => rfl
    rwa [heq] at hle
  · intro hne
    by_contra hno
    simp only [not_exists, not_or, Bool.not_eq_true] at hno
    rw [count_eq_zero fun j => (hno j).1, count_eq_zero fun j => (hno j).2] at hle
    exact hne (List.length_eq_zero_iff.1 (Nat.le_zero.1 hle))

/-- With worker 1 asleep a task is pushed for the sleeping worker 0: the signal is still due. -/
theorem threadPool_no_lost_wakeup_due :
    ∃ q, Run (Step step) (new : ThreadPool Nat (Fin 3))
        [.rountine 0, .run 0, .run 0, .rountine 1, .run 1, .run 1,
          .pushTask 2 7, .run 2, .run 2, .run 2] q ∧
      q.taskQueue = [7] ∧ (∀ j, q.point j ≠ .popTask true) ∧
      q.taskQueue.length ≤ count Point.due q.point + count Point.notRechecked q.point ∧
      ∃ j, (q.point j).due = true ∨ (q.point j).onTheWay = true := by
  obtain ⟨q, hrun, h1, hqueue, hnone⟩ := exec_exists step (new : ThreadPool Nat (Fin 3))
    [.rountine 0, .run 0, .run 0, .rountine 1, .run 1, .run 1,
      .pushTask 2 7, .run 2, .run 2, .run 2]
    (p := fun q => q.point 1 = .sleep ∧ q.taskQueue = [7] ∧ ∀ j, q.point j ≠ .popTask true)
    (by decide)
  obtain ⟨-, hbound, hsome⟩ := threadPool_no_lost_wakeup _ q hrun 1 h1
  exact ⟨q, hrun, hqueue, hnone, hbound hnone, hsome (by simp [hqueue])⟩

/-- Workers 0 and 1 sleep, a task is pushed and the signal wakes worker 0, which tests the queue
    again: a task is queued, worker 1 sleeps, no signal is due, and nobody has still to test. -/
theorem threadPool_rechecked_before_popTask :
    ∃ q, Run (Step step) (new : ThreadPool Nat (Fin 3))
        [.rountine 0, .run 0, .run 0, .rountine 1, .run 1, .run 1,
          .pushTask 2 7, .run 2, .run 2, .run 2, .wakeup 2 [0], .run 0, .run 0] q ∧
      q.point 1 = .sleep ∧ q.taskQueue = [7] ∧
      (∀ j, (q.point j).due = false ∧ (q.point j).notRechecked = false) ∧
      ¬ q.taskQueue.length ≤ count Point.due q.point + count Point.notRechecked q.point := by
  obtain ⟨q, hrun, h1, hqueue, hnone⟩ := exec_exists step (new : ThreadPool Nat (Fin 3))
    [.rountine 0, .run 0, .run 0, .rountine 1, .run 1, .run 1,
      .pushTask 2 7, .run 2, .run 2, .run 2, .wakeup 2 [0], .run 0, .run 0]
    (p := fun q => q.point 1 = .sleep ∧ q.taskQueue = [7] ∧
      ∀ j, (q.point j).due = false ∧ (q.point j).notRechecked = false) (by decide)
  refine ⟨q, hrun, h1, hqueue, hnone, ?_⟩
  rw [count_eq_zero fun j => (hnone j).1, count_eq_zero fun j => (hnone j).2, hqueue]
  simp

end SystemCallLearn.Pthread.ThreadPool
