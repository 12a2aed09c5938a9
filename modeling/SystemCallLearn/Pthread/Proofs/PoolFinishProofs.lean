import SystemCallLearn.Pthread.Proofs.ThreadPoolProofs
import SystemCallLearn.Lib.Measure
import Mathlib.Data.List.Perm.Subperm

/-!
# The thread pool finishes its work

When no more tasks come and no thread wakes by itself, the threads have only so much left to do
(`left`): a worker goes back to sleep or removes a task, and a signal wakes each thread once at
most. When nobody can go on any more, the balance of the wakeups leaves no task in the queue, and
every task that was pushed has been run once.
-/

namespace SystemCallLearn.Pthread.ThreadPool

open SystemCallLearn.Lib

variable {T ι : Type} [DecidableEq ι] [Fintype ι] {q q' : ThreadPool T ι} {a : Act T ι}

/-- What the threads do by themselves: no thread is created, none enters `PushTask`, and none wakes
    unless it is signalled. -/
def Own (_ : ThreadPool T ι) : Act T ι → Prop
  | .run _ | .wakeup _ _ => True
  | .rountine _ | .pushTask _ _ | .awake _ => False

/-- The steps of the threads themselves. -/
abbrev Works : ThreadPool T ι → Act T ι → ThreadPool T ι → Prop := Guarded Own (Step step)

/-! ## What is left to do -/

/-- What a thread has still to do before it sleeps or is outside, when a signal wakes `n` threads at
    most. -/
def weight (n : Nat) : Point T → Nat
  | .idle | .sleep | .undefined => 0
  | .popTask _ => 1
  | .test _ => 2
  | .lock | .wake => 3
  | .task _ _ => 4
  | .unlock _ _ => 5
  | .wakeup => 3 * n + 1
  | .pushUnlock => 3 * n + 2
  | .push _ => 3 * n + 8
  | .pushLock _ => 3 * n + 9

omit [DecidableEq ι] in
/-- What is left to do, with the five statements that each queued task costs. -/
def left (q : ThreadPool T ι) : Nat :=
  total (weight (Fintype.card ι)) q.point + 5 * q.taskQueue.length

/-- One thread moves, and the tasks queued change by as much as its weight, and less. -/
theorem left_move {i : ι} {pt : Point T} (hpoint : q'.point = (q.move i pt).point)
    (hlt : weight (Fintype.card ι) pt + 5 * q'.taskQueue.length <
      weight (Fintype.card ι) (q.point i) + 5 * q.taskQueue.length) : left q' < left q := by
  have htotal := total_update (weight (Fintype.card ι)) q.point i pt
  simp only [left, hpoint, move]
  omega

omit [Fintype ι] in
theorem woken_cases {woken : List ι} (hw : ∀ j ∈ woken, (q.point j).asleep = true) (j : ι) :
    (if j ∈ woken then .wake else q.point j) = q.point j ∨
      q.point j = .sleep ∧ (if j ∈ woken then .wake else q.point j) = .wake := by
  by_cases hj : j ∈ woken
  · exact .inr ⟨Point.asleep_iff.1 (hw j hj), if_pos hj⟩
  · exact .inl (if_neg hj)

/-- A signal wakes each thread once. -/
theorem left_wakeup {i : ι} {woken : List ι} (hi : q.point i = .wakeup)
    (hw : ∀ j ∈ woken, (q.point j).asleep = true) :
    left ({ q with point := fun j => if j ∈ woken then .wake else q.point j }.move i .idle) <
      left q := by
  have hgain : total (weight (Fintype.card ι)) (fun j => if j ∈ woken then .wake else q.point j) ≤
      total (weight (Fintype.card ι)) q.point + 3 * Fintype.card ι := by
    apply total_le_add
    intro j
    rcases woken_cases hw j with hj | ⟨-, hj⟩
    · rw [hj]
      exact Nat.le_add_right _ _
    · rw [hj]
      exact Nat.le_add_left _ _
  have htotal := total_update (weight (Fintype.card ι))
    (fun j => if j ∈ woken then (.wake : Point T) else q.point j) i .idle
  rw [if_neg (notMem_woken hi hw), hi] at htotal
  simp only [weight] at htotal
  simp only [left, move]
  omega

/-- **Every step of the threads leaves less to do.** -/
theorem left_step (hst : Works q a q') : left q' < left q := by
  obtain ⟨hown, hst⟩ := hst
  cases step_moves hst with
  | rountine hi | pushTask hi | awake hi => exact hown.elim
  | @lock i pt hi hm =>
    refine left_move rfl ?_
    rcases Point.locks_cases hi with ⟨hpt, rfl⟩ | ⟨hpt, rfl⟩ | ⟨v, hpt, rfl⟩ <;>
      simp [hpt, weight, move]
  | @unlock i pt hi =>
    refine left_move rfl ?_
    rcases Point.unlocks_cases hi with ⟨t, n, hpt, rfl⟩ | ⟨hpt, rfl⟩ <;> simp [hpt, weight, move]
  | sleep hi _ | pass hi _ | popEmpty hi _ | task hi =>
    refine left_move rfl ?_
    simp [hi, weight, move]
  | popTask hi hq =>
    refine left_move rfl ?_
    rw [hi, hq, List.length_cons]
    simp only [weight]
    omega
  | push hi =>
    refine left_move rfl ?_
    rw [hi, List.length_append, List.length_singleton]
    simp only [weight]
    omega
  | wakeup hi hw hnone => exact left_wakeup hi hw

/-! ## Every task that is removed is run -/

omit [DecidableEq ι] [Fintype ι] in
/-- The thread has removed a task and not run it yet. -/
def Point.holds (pt : Point T) : Bool := pt.holding.isSome

omit [DecidableEq ι] in
/-- The tasks removed are held or have been run. -/
def Counted (q : ThreadPool T ι) : Prop :=
  count Point.holds q.point + q.ran.length = q.removed.length

/-- One thread moves, and holds more by as much as is removed and not run. -/
theorem Counted.move (h : q.Counted) {i : ι} {pt : Point T} (hpoint : q'.point = (q.move i pt).point)
    (hbal : pt.holds.toNat + q'.ran.length + q.removed.length =
      (q.point i).holds.toNat + q.ran.length + q'.removed.length) : q'.Counted := by
  have hcount := count_update Point.holds q.point i pt
  unfold Counted at h ⊢
  rw [hpoint]
  simp only [ThreadPool.move]
  omega

omit [DecidableEq ι] in
theorem Counted.wakes (h : q.Counted) {f : ι → Point T}
    (hf : ∀ j, f j = q.point j ∨ q.point j = .sleep ∧ f j = .wake) :
    Counted { q with point := f } := by
  have hcount : count Point.holds f = count Point.holds q.point := by
    apply count_congr
    intro j
    rcases hf j with hj | ⟨hs, hj⟩
    · rw [hj]
    · rw [hs, hj]
      rfl
  unfold Counted at h ⊢
  rw [← h, ← hcount]

theorem Counted.step (h : q.Counted) (hst : Step step q a q') : q'.Counted := by
  cases step_moves hst with
  | rountine hi | pushTask hi | sleep hi _ | pass hi _ | popEmpty hi _ | push hi | awake hi =>
    exact h.move rfl (by rw [hi]; rfl)
  | @lock i pt hi hm =>
    refine h.move rfl ?_
    rcases Point.locks_cases hi with ⟨hpt, rfl⟩ | ⟨hpt, rfl⟩ | ⟨v, hpt, rfl⟩ <;> rw [hpt] <;> rfl
  | @unlock i pt hi =>
    refine h.move rfl ?_
    rcases Point.unlocks_cases hi with ⟨t, n, hpt, rfl⟩ | ⟨hpt, rfl⟩ <;> rw [hpt] <;> rfl
  | popTask hi hq =>
    refine h.move rfl ?_
    rw [hi, List.length_append, List.length_singleton]
    simp only [ThreadPool.move, Point.holds, Point.holding, Option.isSome_some, Option.isSome_none,
      Bool.toNat_true, Bool.toNat_false]
    omega
  | task hi =>
    refine h.move rfl ?_
    rw [hi, List.length_append, List.length_singleton]
    simp only [ThreadPool.move, Point.holds, Point.holding, Option.isSome_some, Option.isSome_none,
      Bool.toNat_true, Bool.toNat_false]
    omega
  | @wakeup i woken hi hw hnone =>
    refine (h.wakes (woken_cases hw)).move rfl ?_
    simp only [if_neg (notMem_woken hi hw), hi]
    rfl

omit [DecidableEq ι] [Fintype ι] in
/-- As many different places as there are tasks removed are all of them. -/
theorem perm_of_counted (hok : q.Ok) (hlen : q.ran.length = q.removed.length) :
    (q.ran.map Ran.task).Perm (q.removed.map Prod.snd) := by
  have hplaces : q.places.Perm (List.range q.removed.length) := by
    have hsub : q.places.Subperm (List.range q.removed.length) := by
      apply hok.once.subperm
      intro n hn
      obtain ⟨r, hr, rfl⟩ := List.mem_map.1 hn
      exact List.mem_range.2 (List.getElem?_eq_some_iff.1 (hok.done r hr)).1
    apply hsub.perm_of_length_le
    rw [List.length_range, places, List.length_map]
    omega
  have htasks := hplaces.map fun n => (q.removed.map Prod.snd)[n]?
  have hran : q.places.map (fun n => (q.removed.map Prod.snd)[n]?) =
      (q.ran.map Ran.task).map some := by
    rw [places, List.map_map, List.map_map]
    apply List.map_congr_left
    intro r hr
    simp [hok.done r hr]
  have hremoved : (List.range q.removed.length).map (fun n => (q.removed.map Prod.snd)[n]?) =
      (q.removed.map Prod.snd).map some := by
    apply List.ext_getElem?
    intro n
    by_cases hn : n < q.removed.length <;> simp [hn]
  rw [hran, hremoved] at htasks
  exact (List.map_perm_map_iff (fun _ _ => Option.some.inj)).1 htasks

/-! ## When nobody can go on -/

omit [DecidableEq ι] [Fintype ι] in
/-- The thread runs `Rountine`. -/
def Point.works : Point T → Bool
  | .lock | .test _ | .sleep | .wake | .popTask _ | .unlock _ _ | .task _ _ | .undefined => true
  | .idle | .pushLock _ | .push _ | .pushUnlock | .wakeup => false

/-- A worker stays a worker. -/
theorem works_step (hst : Step step q a q') {k : ι} (hk : (q.point k).works = true) :
    (q'.point k).works = true := by
  have hmove : ∀ i (pt : Point T), ((q.point i).works = true → pt.works = true) →
      (Function.update q.point i pt k).works = true := by
    intro i pt hpt
    by_cases hki : k = i
    · subst hki
      rw [Function.update_self]
      exact hpt hk
    · rwa [Function.update_of_ne hki]
  cases step_moves hst with
  | rountine hi | sleep hi _ | pass hi _ | popTask hi _ | popEmpty hi _ | task hi | awake hi =>
    exact hmove _ _ fun _ => rfl
  | pushTask hi | push hi =>
    apply hmove
    intro hw
    rw [hi] at hw
    cases hw
  | @lock i pt hi hm =>
    apply hmove
    intro hw
    rcases Point.locks_cases hi with ⟨hpt, rfl⟩ | ⟨hpt, rfl⟩ | ⟨v, hpt, rfl⟩
    · rfl
    · rfl
    · rw [hpt] at hw
      cases hw
  | @unlock i pt hi =>
    apply hmove
    intro hw
    rcases Point.unlocks_cases hi with ⟨t, n, hpt, rfl⟩ | ⟨hpt, rfl⟩
    · rfl
    · rw [hpt] at hw
      cases hw
  | @wakeup i woken hi hw hnone =>
    have hki : k ≠ i := by
      rintro rfl
      rw [hi] at hk
      cases hk
    show (Function.update (fun j => if j ∈ woken then .wake else q.point j) i .idle k).works = true
    rw [Function.update_of_ne hki]
    rcases woken_cases hw k with hsame | ⟨-, hwake⟩
    · rwa [hsame]
    · rw [hwake]
      rfl

/-- A run in which a worker is created has one at its end. -/
theorem exists_works {as : List (Act T ι)} (h : Run (Step step) new as q)
    (hw : ∃ i, .rountine i ∈ as) : ∃ i, (q.point i).works = true := by
  obtain ⟨i, hi⟩ := hw
  refine ⟨i, ?_⟩
  induction h with
  | nil => cases hi
  | @snoc as q q' a h hst ih =>
    rcases List.mem_append.1 hi with hold | hnew
    · exact works_step hst (ih hold)
    · obtain rfl := List.mem_singleton.1 hnew
      cases step_moves hst with
      | rountine hidle =>
        show (Function.update q.point i .lock i).works = true
        rw [Function.update_self]
        rfl

/-- A thread that is neither outside nor asleep can go on, or it waits for one that can. -/
theorem exists_own_step (h : q.Ok) {i : ι} (hidle : q.point i ≠ .idle)
    (hsleep : q.point i ≠ .sleep) : ∃ a, q.Own a ∧ (step q a).isSome = true := by
  have hinside : ∀ j, (q.point j).inside = true → (q.run j).isSome = true := by
    intro j hj
    cases hp : q.point j with
    | undefined => exact absurd hp (h.defined j)
    | test w => cases hempty : q.isEmpey <;> simp [run, hp, hempty]
    | popTask _ | unlock _ _ | push _ | pushUnlock => simp [run, hp]
    | _ =>
      rw [hp] at hj
      cases hj
  have hlock : ∀ pt, q.run i = q.lock i pt → ∃ a, q.Own a ∧ (step q a).isSome = true := by
    intro pt hrun
    cases hm : q.mtx with
    | none => exact ⟨.run i, trivial, by simp [step, hrun, ThreadPool.lock, hm]⟩
    | some j => exact ⟨.run j, trivial, hinside j ((h.owner j).1 hm)⟩
  cases hp : q.point i with
  | idle => exact absurd hp hidle
  | sleep => exact absurd hp hsleep
  | undefined => exact absurd hp (h.defined i)
  | lock => exact hlock (.test false) (by simp only [run, hp])
  | wake => exact hlock (.test true) (by simp only [run, hp])
  | pushLock v => exact hlock (.push v) (by simp only [run, hp])
  | test _ | popTask _ | unlock _ _ | push _ | pushUnlock =>
    exact ⟨.run i, trivial, hinside i (by rw [hp]; rfl)⟩
  | task t n => exact ⟨.run i, trivial, by simp [step, run, hp]⟩
  | wakeup =>
    by_cases hsome : ∃ j, (q.point j).asleep = true
    · obtain ⟨j, hj⟩ := hsome
      exact ⟨.wakeup i [j], trivial, by simp [step, wakeup, hp, hj]⟩
    · simp only [not_exists, Bool.not_eq_true] at hsome
      exact ⟨.wakeup i [], trivial, by simp [step, wakeup, hp, hsome]⟩

/-- What holds in every state of every run. -/
structure Kept (q : ThreadPool T ι) : Prop where
  ok : q.Ok
  awaited : q.Awaited
  counted : q.Counted
  conserves : q.history.Conserves

omit [DecidableEq ι] in
theorem kept_new : Kept (new : ThreadPool T ι) where
  ok := new_ok
  awaited := fun j hj => by cases hj
  counted := count_eq_zero fun _ => rfl
  conserves := Fifo.empty_conserves

theorem Kept.step (h : q.Kept) (hst : Step step q a q') : q'.Kept where
  ok := h.ok.step hst
  awaited := h.awaited.step hst
  counted := h.counted.step hst
  conserves := by
    obtain ⟨bs, hrun⟩ := step_history hst
    exact hrun.invariant (fun _ _ _ => Fifo.step_conserves) h.conserves

/-- When no thread can go on, each is outside or asleep. -/
theorem Kept.quiet (h : q.Kept) (hfinal : Final Works q) (i : ι) :
    q.point i = .idle ∨ q.point i = .sleep := by
  by_contra hno
  simp only [not_or] at hno
  obtain ⟨a, hown, hsome⟩ := exists_own_step h.ok hno.1 hno.2
  obtain ⟨q', hst⟩ := Option.isSome_iff_exists.1 hsome
  exact hfinal a q' ⟨hown, hst⟩

/-- When no thread can go on and there is a worker, all tasks have been run. -/
theorem Kept.finished (h : q.Kept) (hfinal : Final Works q) (hw : ∃ i, (q.point i).works = true) :
    q.taskQueue = [] ∧ (q.ran.map Ran.task).Perm q.pushed := by
  have hquiet := h.quiet hfinal
  obtain ⟨i, hi⟩ := hw
  have hsleep : (q.point i).asleep = true := by
    rcases hquiet i with hidle | hsleep
    · rw [hidle] at hi
      cases hi
    · rw [hsleep]
      rfl
  have hcover : q.cover = 0 := by
    have hdue : count Point.due q.point = 0 := count_eq_zero fun j => by
      rcases hquiet j with hj | hj <;> rw [hj] <;> rfl
    have hway : count Point.onTheWay q.point = 0 := count_eq_zero fun j => by
      rcases hquiet j with hj | hj <;> rw [hj] <;> rfl
    simp only [cover]
    omega
  have hqueue : q.taskQueue = [] := by
    have hle := h.awaited i hsleep
    rw [hcover] at hle
    exact List.length_eq_zero_iff.1 (Nat.le_zero.1 hle)
  have hnone : count Point.holds q.point = 0 := count_eq_zero fun j => by
    rcases hquiet j with hj | hj <;> rw [hj] <;> rfl
  have hran : q.ran.length = q.removed.length := by
    have hcounted : count Point.holds q.point + q.ran.length = q.removed.length := h.counted
    omega
  have hpushed : q.pushed = q.removed.map Prod.snd ++ q.taskQueue := h.conserves
  refine ⟨hqueue, ?_⟩
  rw [hpushed, hqueue, List.append_nil]
  exact perm_of_counted h.ok hran

/-- **The pool finishes its work.** From every state of every run in which a worker has been
    created: left to themselves the threads run at most `left q` statements, whatever the schedule;
    they can always go on to a state in which none of them can go on; and in every such state each
    thread is outside or asleep, the queue is empty, and the tasks run are the tasks pushed, each
    once. -/
theorem threadPool_finishes (as : List (Act T ι)) (q : ThreadPool T ι)
    (h : Run (Step step) new as q) (hw : ∃ i, .rountine i ∈ as) (bs : List (Act T ι))
    (q' : ThreadPool T ι) (hrun : Run Works q bs q') :
    bs.length ≤ left q ∧ (∃ cs q'', Run Works q' cs q'' ∧ Final Works q'') ∧
      (Final Works q' → (∀ i, q'.point i = .idle ∨ q'.point i = .sleep) ∧ q'.taskQueue = [] ∧
        (q'.ran.map Ran.task).Perm q'.pushed) := by
  have hkept : q'.Kept := by
    have hboth := h.append (hrun.mono fun _ _ _ hst => hst.2)
    exact hboth.invariant (fun _ _ _ hI hst => hI.step hst) kept_new
  have hworks : ∃ i, (q'.point i).works = true := by
    obtain ⟨i, hi⟩ := exists_works h hw
    exact ⟨i, hrun.invariant (I := fun q => (q.point i).works = true)
      (fun _ _ _ hI hst => works_step hst.2 hI) hi⟩
  have hfalls := hrun.falls (I := fun _ => True) (μ := left) (fun _ _ _ _ _ => trivial)
    (fun _ _ _ _ hst => left_step hst) trivial
  refine ⟨by omega, ?_, ?_⟩
  · exact exists_final (I := fun _ => True) (μ := left) (fun _ _ _ _ _ => trivial)
      (fun _ _ _ _ hst => left_step hst) trivial
  · intro hfinal
    obtain ⟨hqueue, hperm⟩ := hkept.finished hfinal hworks
    exact ⟨hkept.quiet hfinal, hqueue, hperm⟩

/-- Two workers sleep, a task is pushed for each, and both signals wake worker 0. -/
def twoTasks : List (Act Nat (Fin 3)) :=
  [.rountine 0, .run 0, .run 0, .rountine 1, .run 1, .run 1,
    .pushTask 2 7, .run 2, .run 2, .run 2, .wakeup 2 [0],
    .pushTask 2 8, .run 2, .run 2, .run 2]

/-- They are run nevertheless. -/
theorem threadPool_finishes_two : ∃ q bs q',
    Run (Step step) (new : ThreadPool Nat (Fin 3)) twoTasks q ∧ q.pushed = [7, 8] ∧
    Run Works q bs q' ∧ q'.taskQueue = [] ∧ (q'.ran.map Ran.task).Perm q'.pushed := by
  obtain ⟨q, hrun, hpushed⟩ := exec_exists step (new : ThreadPool Nat (Fin 3)) twoTasks
    (p := fun q => q.pushed = [7, 8]) (by decide +kernel)
  have hw : ∃ i, .rountine i ∈ twoTasks := ⟨0, by simp [twoTasks]⟩
  obtain ⟨-, ⟨bs, q', hworks, hfinal⟩, -⟩ := threadPool_finishes twoTasks q hrun hw [] q Run.nil
  obtain ⟨-, -, hend⟩ := threadPool_finishes twoTasks q hrun hw bs q' hworks
  obtain ⟨-, hqueue, hperm⟩ := hend hfinal
  exact ⟨q, bs, q', hrun, hpushed, hworks, hqueue, hperm⟩

end SystemCallLearn.Pthread.ThreadPool
