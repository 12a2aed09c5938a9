import SystemCallLearn.Pthread.Task
import SystemCallLearn.Pthread.Proofs.PoolFinishProofs

/-!
# The tasks of `main.cc` in the pool

What a worker runs has been pushed, so a property of all tasks that are pushed is one of all tasks
that are run. The tasks of `main` are defined and have the result that their operator says.
-/

namespace SystemCallLearn.Pthread

open SystemCallLearn.Lib SystemCallLearn.Posix

/-! ## What is run has been pushed -/

namespace ThreadPool

variable {T ι : Type} [DecidableEq ι] [Fintype ι] {P : T → Prop} {q q' : ThreadPool T ι}
  {a : Act T ι}

/-- Only tasks with the property are pushed. -/
def Pushes (P : T → Prop) (_ : ThreadPool T ι) : Act T ι → Prop
  | .pushTask _ v => P v
  | _ => True

omit [DecidableEq ι] [Fintype ι] in
/-- The task that a thread is about to push. -/
def Point.brings : Point T → Option T
  | .pushLock v | .push v => some v
  | _ => none

omit [DecidableEq ι] [Fintype ι] in
/-- The tasks pushed, and those about to be, have the property. -/
structure Values (P : T → Prop) (q : ThreadPool T ι) : Prop where
  pushed : ∀ v ∈ q.pushed, P v
  brought : ∀ i v, (q.point i).brings = some v → P v

omit [Fintype ι] in
/-- A thread moves, and brings what it brought, or nothing. -/
theorem Values.move (h : q.Values P) {i : ι} {pt : Point T}
    (hpoint : q'.point = (q.move i pt).point) (hpushed : ∀ v ∈ q'.pushed, P v)
    (hpt : ∀ v, pt.brings = some v → P v) : q'.Values P := by
  refine ⟨hpushed, ?_⟩
  intro j v hj
  simp only [hpoint, ThreadPool.move] at hj
  by_cases hji : j = i
  · subst hji
    rw [Function.update_self] at hj
    exact hpt v hj
  · rw [Function.update_of_ne hji] at hj
    exact h.brought j v hj

theorem Values.step (h : q.Values P) (hst : Guarded (Pushes P) (Step step) q a q') :
    q'.Values P := by
  obtain ⟨hok, hst⟩ := hst
  cases step_moves hst with
  | rountine hi | sleep hi _ | pass hi _ | popTask hi _ | popEmpty hi _ | task hi | awake hi =>
    exact h.move rfl h.pushed fun v hv => by cases hv
  | pushTask hi =>
    refine h.move rfl h.pushed ?_
    rintro v ⟨⟩
    exact hok
  | @lock i pt hi hm =>
    refine h.move rfl h.pushed ?_
    intro v hv
    rcases Point.locks_cases hi with ⟨hpt, rfl⟩ | ⟨hpt, rfl⟩ | ⟨w, hpt, rfl⟩
    · cases hv
    · cases hv
    · exact h.brought i v (by rw [hpt]; exact hv)
  | @unlock i pt hi =>
    refine h.move rfl h.pushed ?_
    intro v hv
    rcases Point.unlocks_cases hi with ⟨t, n, hpt, rfl⟩ | ⟨hpt, rfl⟩ <;> cases hv
  | @push i v hi =>
    refine h.move rfl ?_ fun w hw => by cases hw
    intro w hw
    rcases List.mem_append.1 hw with hold | hnew
    · exact h.pushed w hold
    · rw [List.mem_singleton.1 hnew]
      exact h.brought i v (by rw [hi]; rfl)
  | @wakeup i woken hi hw hnone =>
    have hwakes : Values P { q with point := fun j => if j ∈ woken then .wake else q.point j } := by
      refine ⟨h.pushed, ?_⟩
      intro j v hj
      simp only at hj
      rcases woken_cases hw j with hsame | ⟨-, hwake⟩
      · exact h.brought j v (by rwa [hsame] at hj)
      · rw [hwake] at hj
        cases hj
    exact hwakes.move rfl h.pushed fun v hv => by cases hv

/-- **What is run has the property of what is pushed.** -/
theorem ran_of_pushed {as : List (Act T ι)}
    (h : Run (Guarded (Pushes P) (Step step)) new as q) : ∀ r ∈ q.ran, P r.task := by
  have hvalues : q.Values P := h.invariant (fun _ _ _ hI hst => hI.step hst)
    ⟨fun v hv => (List.not_mem_nil hv).elim, fun i v hv => by cases hv⟩
  have hkept : q.Kept :=
    h.invariant (fun _ _ _ hI hst => hI.step hst.2) kept_new
  intro r hr
  have hplace := hkept.ok.done r hr
  have hmem : r.task ∈ q.removed.map Prod.snd :=
    List.mem_map.2 ⟨_, List.mem_of_getElem? hplace, rfl⟩
  have hpushed : q.pushed = q.removed.map Prod.snd ++ q.taskQueue := hkept.conserves
  exact hvalues.pushed _ (hpushed ▸ List.mem_append_left _ hmem)

end ThreadPool

/-! ## The tasks -/

namespace Task

/-- What the operator says of the result, the quotient being rounded towards zero. -/
def Result (t : Task) (r : Int) : Prop :=
  (t.op = '+' ∧ r = t.x + t.y) ∨ (t.op = '-' ∧ r = t.x - t.y) ∨ (t.op = '*' ∧ r = t.x * t.y) ∨
  (t.op = '/' ∧ ∃ k, t.x = t.y * r + k ∧ 0 ≤ k ∧ k < t.y) ∨
  (t.op = '%' ∧ ∃ k, t.x = t.y * k + r ∧ 0 ≤ r ∧ r < t.y)

theorem ops_getD (r : Nat) : ops.getD (r % 5) ' ' ∈ ops := by
  have hcase : r % 5 = 0 ∨ r % 5 = 1 ∨ r % 5 = 2 ∨ r % 5 = 3 ∨ r % 5 = 4 := by omega
  rcases hcase with h | h | h | h | h <;> rw [h] <;> decide

/-- The ranges of what `main` makes. -/
theorem Made.ranges {t : Task} (h : t.Made) :
    1 ≤ t.x ∧ t.x ≤ 20 ∧ 1 ≤ t.y ∧ t.y ≤ 10 ∧ t.op ∈ ops := by
  obtain ⟨r1, r2, r3, rfl⟩ := h
  have hop := ops_getD r3
  simp only [ofRand]
  refine ⟨?_, ?_, ?_, ?_, hop⟩ <;> omega

theorem asInt_of_small {z : Int} (h1 : -9 ≤ z) (h2 : z ≤ 200) : asInt z = some z := by
  apply if_pos
  unfold InInt intMax
  omega

/-- Quotient and remainder of the small positive numbers of `main`. -/
theorem quotient {x y : Int} (hx1 : 1 ≤ x) (hx2 : x ≤ 20) (hy1 : 1 ≤ y) :
    x = y * x.tdiv y + x.tmod y ∧ 0 ≤ x.tmod y ∧ x.tmod y < y ∧ 0 ≤ x.tdiv y ∧ x.tdiv y ≤ 20 := by
  rw [Int.tdiv_eq_ediv_of_nonneg (by omega), Int.tmod_eq_emod_of_nonneg (by omega)]
  have hle : x / y ≤ x := Int.ediv_le_self y (by omega)
  refine ⟨(Int.mul_ediv_add_emod x y).symm, Int.emod_nonneg x (by omega),
    Int.emod_lt_of_pos x (by omega), Int.ediv_nonneg (by omega) (by omega), by omega⟩

/-- A task of `main` is defined, and its result is small. -/
theorem Made.run {t : Task} (h : t.Made) :
    ∃ r, t.run = some r ∧ t.Result r ∧ -9 ≤ r ∧ r ≤ 200 := by
  obtain ⟨hx1, hx2, hy1, hy2, hop⟩ := h.ranges
  obtain ⟨hdiv, hmod1, hmod2, hdiv1, hdiv2⟩ := quotient hx1 hx2 hy1
  have hy0 : t.y ≠ 0 := by omega
  simp only [ops, List.mem_cons, List.not_mem_nil, or_false] at hop
  rcases hop with hop | hop | hop | hop | hop
  · refine ⟨t.x + t.y, ?_, .inl ⟨hop, rfl⟩, by omega, by omega⟩
    simp only [Task.run, hop]
    exact asInt_of_small (by omega) (by omega)
  · refine ⟨t.x - t.y, ?_, .inr (.inl ⟨hop, rfl⟩), by omega, by omega⟩
    simp only [Task.run, hop]
    exact asInt_of_small (by omega) (by omega)
  · have hlow : 1 * 1 ≤ t.x * t.y := Int.mul_le_mul hx1 hy1 (by decide) (by omega)
    have hhigh : t.x * t.y ≤ 20 * 10 := Int.mul_le_mul hx2 hy2 (by omega) (by decide)
    refine ⟨t.x * t.y, ?_, .inr (.inr (.inl ⟨hop, rfl⟩)), by omega, by omega⟩
    simp only [Task.run, hop]
    exact asInt_of_small (by omega) (by omega)
  · refine ⟨t.x.tdiv t.y, ?_, .inr (.inr (.inr (.inl ⟨hop, _, hdiv, hmod1, hmod2⟩))), by omega,
      by omega⟩
    simp only [Task.run, hop, if_neg hy0]
    exact asInt_of_small (by omega) (by omega)
  · refine ⟨t.x.tmod t.y, ?_, .inr (.inr (.inr (.inr ⟨hop, _, hdiv, hmod1, hmod2⟩))), by omega,
      by omega⟩
    simp only [Task.run, hop, if_neg hy0, asInt_of_small (by omega : -9 ≤ t.x.tdiv t.y) (by omega),
      Option.map_some]

end Task

namespace ThreadPool

variable {ι : Type} [DecidableEq ι] [Fintype ι]

/-- **The tasks of `main.cc` compute.** In every run of the pool in which the tasks pushed are such
    as `main` makes, whoever pushes them and whichever worker runs them, each task that is run has
    defined behaviour and the result of its operator, and none is the `bug??` of the `switch`. -/
theorem threadPool_computes (as : List (Act Task ι)) (q : ThreadPool Task ι)
    (h : Run (Guarded (Pushes Task.Made) (Step step)) new as q) :
    ∀ r ∈ q.ran, ∃ z, r.task.run = some z ∧ r.task.Result z ∧ -9 ≤ z ∧ z ≤ 200 :=
  fun r hr => (ran_of_pushed h r hr).run

/-- Worker 0 runs the task `3/2` of thread 1. -/
def oneTask : List (Act Task Bool) :=
  [.rountine false, .run false, .run false, .pushTask true (Task.ofRand 2 1 3), .run true,
    .run true, .run true, .wakeup true [false], .run false, .run false, .run false, .run false,
    .run false]

theorem threadPool_computes_one : ∃ q, Run (Guarded (Pushes Task.Made) (Step step)) new oneTask q ∧
    q.ran = [{ worker := false, place := 0, task := Task.ofRand 2 1 3 }] ∧
    ∃ z, (Task.ofRand 2 1 3).run = some z ∧ (Task.ofRand 2 1 3).Result z := by
  obtain ⟨q, hrun, hran⟩ := exec_exists step (new : ThreadPool Task Bool) oneTask
    (p := fun q => q.ran = [{ worker := false, place := 0, task := Task.ofRand 2 1 3 }])
    (by decide +kernel)
  have hmade : Run (Guarded (Pushes Task.Made) (Step step)) new oneTask q := by
    apply hrun.guarded
    intro a ha s
    simp only [oneTask, List.mem_cons, List.not_mem_nil, or_false] at ha
    rcases ha with rfl | rfl | rfl | rfl | rfl | rfl | rfl | rfl | rfl | rfl | rfl | rfl | rfl <;>
      first | exact ⟨2, 1, 3, rfl⟩ | trivial
  obtain ⟨z, hz, hresult, -⟩ := threadPool_computes oneTask q hmade _
    (by rw [hran]; exact List.mem_singleton_self _)
  exact ⟨q, hmade, hran, z, hz, hresult⟩

end ThreadPool

end SystemCallLearn.Pthread
