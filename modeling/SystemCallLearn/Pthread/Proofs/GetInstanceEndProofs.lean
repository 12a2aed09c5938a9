import SystemCallLearn.Pthread.Proofs.GetInstanceProofs
import SystemCallLearn.Lib.Measure
import SystemCallLearn.Lib.ThreadCount

/-!
# The calls of `GetInstance` return

A call costs six statements, and making the pool another fourteen, which are paid once. A thread that
has not returned can go on or waits for the lock, whose owner can. So nobody waits for ever, and when
all calls have returned there is one pool and `InitThreadPool` is done on it.
-/

namespace SystemCallLearn.Pthread.GetInstance

open SystemCallLearn.Lib

variable {ι : Type}

/-! ## What is left of a call -/

/-- The action begins a call. -/
def Act.isCall : Act ι → Bool
  | .call _ => true
  | .run _ | .create _ _ => false

/-- The statements that a thread still runs before it has returned. What the pool costs is counted
    from its construction on. -/
def weight : Point → Nat
  | .idle | .undefined => 0
  | .check => 5
  | .lock => 4
  | .recheck => 3
  | .construct => 2
  | .publish _ => 15
  | .initThreadPool => 14
  | .loop _ k => 3 + 2 * (gNum - k)
  | .create _ k => 2 + 2 * (gNum - k)
  | .unlock => 2
  | .ret => 1

/-- What the pool costs that has not been made yet. -/
def unmade (s : GetInstance ι) : Nat := if s.pools = [] then 14 else 0

/-- The thread is in a call. -/
def Point.busy : Point → Bool
  | .idle => false
  | _ => true

/-- Who has returned has found `ins` set. -/
def Told (s : GetInstance ι) : Prop := s.returned ≠ [] → s.ins ≠ none

/-- The thread `i` goes on to `pt`: it has less left to do, and it leaves the call when this has
    returned. -/
structure Advances (s : GetInstance ι) (i : ι) (pt : Point) (s' : GetInstance ι) : Prop where
  spends : weight pt + unmade s' + 1 ≤ weight (s.point i) + unmade s
  returns : pt.busy.toNat + s'.returned.length = (s.point i).busy.toNat + s.returned.length
  told : Told s → Told s'

section Steps

variable {s s' : GetInstance ι} {l : Life} {i : ι} {pt : Point}

/-- A move that touches neither the pools nor what has been returned. -/
theorem Advances.quiet (hw : weight pt + 1 ≤ weight (s.point i))
    (hb : pt.busy = (s.point i).busy) (hp : s'.pools = s.pools) (hi : s'.ins = s.ins)
    (hr : s'.returned = s.returned) : Advances s i pt s' where
  spends := by
    unfold unmade
    rw [hp]
    omega
  returns := by rw [hb, hr]
  told := by
    unfold Told
    rw [hi, hr]
    exact id

variable [DecidableEq ι]

/-- The loop of `InitThreadPool` on the pool there is. -/
theorem advances_loop (h : Sim Published s l) {p k : Nat} (hp : s.point i = .loop p k)
    (hst : s.run i = some s') :
    ∃ pt, s'.point = Function.update s.point i pt ∧ Advances s i pt s' := by
  have ha := h.staged.points i
  rw [hp] at ha
  obtain ⟨rfl, w, rfl⟩ := ha
  have hpool : s.pools[0]? = some { threadPool with workers := w } := by
    rw [h.shows.pools]
    rfl
  simp only [run, hp, hpool] at hst
  split_ifs at hst
  · obtain rfl := Option.some.inj hst
    refine ⟨.create 0 k, rfl, .quiet ?_ (by rw [hp]; rfl) rfl rfl rfl⟩
    rw [hp]
    simp only [weight]
    omega
  · obtain rfl := Option.some.inj hst
    refine ⟨.unlock, rfl, .quiet ?_ (by rw [hp]; rfl) rfl rfl rfl⟩
    rw [hp]
    simp only [weight]
    omega

/-- **What a statement costs.** -/
theorem advances_run (h : Sim Published s l) (hst : s.run i = some s') :
    ∃ pt, s'.point = Function.update s.point i pt ∧ Advances s i pt s' := by
  have hpoint := h.staged.points i
  cases hp : s.point i with
  | idle | create | undefined => simp [run, hp] at hst
  | check =>
    simp only [run, hp, Option.some.injEq] at hst
    subst hst
    refine ⟨_, rfl, .quiet ?_ ?_ rfl rfl rfl⟩
    all_goals
      rw [hp]
      split_ifs <;> decide
  | lock =>
    simp only [run, hp] at hst
    cases hlock : s.lock with
    | some j => simp [hlock] at hst
    | none =>
      simp only [hlock, Option.some.injEq] at hst
      subst hst
      exact ⟨_, rfl, .quiet (by rw [hp]; decide) (by rw [hp]; rfl) rfl rfl rfl⟩
  | recheck =>
    simp only [run, hp, Option.some.injEq] at hst
    subst hst
    refine ⟨_, rfl, .quiet ?_ ?_ rfl rfl rfl⟩
    all_goals
      rw [hp]
      split_ifs <;> decide
  | construct =>
    rw [hp] at hpoint
    obtain rfl : l = .absent := hpoint
    have hnone : s.pools = [] := h.shows.pools
    simp only [run, hp, Option.some.injEq] at hst
    subst hst
    refine ⟨_, rfl, ?_, by rw [hp]; rfl, id⟩
    rw [hp]
    simp [weight, unmade, hnone]
  | publish p =>
    simp only [run, hp, Option.some.injEq] at hst
    subst hst
    refine ⟨_, rfl, ?_, by rw [hp]; rfl, fun _ _ => Option.some_ne_none p⟩
    rw [hp]
    show weight .initThreadPool + unmade s + 1 ≤ weight (.publish p) + unmade s
    simp only [weight]
    omega
  | initThreadPool =>
    rw [hp] at hpoint
    obtain rfl : l = .published := hpoint
    have hins : s.ins = some 0 := h.shows.ins
    simp only [run, hp, hins, Option.some.injEq] at hst
    subst hst
    exact ⟨_, rfl, .quiet (by rw [hp]; decide) (by rw [hp]; rfl) rfl rfl rfl⟩
  | loop p k => exact advances_loop h hp hst
  | unlock =>
    simp only [run, hp, Option.some.injEq] at hst
    subst hst
    exact ⟨_, rfl, .quiet (by rw [hp]; decide) (by rw [hp]; rfl) rfl rfl rfl⟩
  | ret =>
    rw [hp] at hpoint
    have hins : s.ins ≠ none := by
      rw [h.shows.ins.trans hpoint]
      exact Option.some_ne_none 0
    simp only [run, hp, Option.some.injEq] at hst
    subst hst
    refine ⟨.idle, rfl, ?_, ?_, fun _ _ => hins⟩
    · rw [hp]
      show weight .idle + unmade s + 1 ≤ weight .ret + unmade s
      simp only [weight]
      omega
    · rw [hp]
      simp [Point.busy, Nat.add_comm]

/-- `pthread_create`, whatever it answers. -/
theorem advances_create (h : Sim Published s l) {created : Bool}
    (hst : s.create i created = some s') :
    ∃ pt, s'.point = Function.update s.point i pt ∧ Advances s i pt s' := by
  have hpoint := h.staged.points i
  unfold create at hst
  cases hp : s.point i with
  | create p k =>
    rw [hp] at hpoint
    obtain ⟨rfl, hk, w, rfl⟩ := hpoint
    simp only [hp, Option.some.injEq] at hst
    subst hst
    refine ⟨_, rfl, ?_, by rw [hp]; rfl, id⟩
    rw [hp]
    have hsame : unmade { s.move i (.loop 0 (k + 1)) with
        pools := s.pools.modify 0 fun pool =>
          { pool with workers := pool.workers + created.toNat } } = unmade s := by
      unfold unmade
      simp only [h.shows.pools]
      rfl
    rw [hsame]
    simp only [weight]
    omega
  | idle | check | lock | recheck | construct | publish | initThreadPool | loop | unlock | ret
    | undefined => simp [hp] at hst

end Steps

/-! ## What is left of the program -/

section Runs

variable [DecidableEq ι] [Fintype ι] {s s' : GetInstance ι} {l : Life} {a : Act ι}
  {acts : List (Act ι)}

/-- The statements left in the calls begun. -/
def left (s : GetInstance ι) : Nat := total weight s.point + unmade s

/-- The calls begun: those in which a thread is, and those that have returned. -/
def begun (s : GetInstance ι) : Nat := count Point.busy s.point + s.returned.length

/-- **The step lemma.** A call has six statements to run; every other step runs one of those that
    are left. -/
theorem spends_step (h : Sim Published s l) (hst : Step step s a s') :
    left s' + 1 ≤ left s + 6 * a.isCall.toNat ∧ begun s' = begun s + a.isCall.toNat ∧ (Told s → Told s') := by
  have hown : ∀ i, (∃ pt, s'.point = Function.update s.point i pt ∧ Advances s i pt s') →
      left s' + 1 ≤ left s ∧ begun s' = begun s ∧ (Told s → Told s') := by
    rintro i ⟨pt, hpoint, hadv⟩
    have htotal := total_update weight s.point i pt
    have hcount := count_update Point.busy s.point i pt
    have hspends := hadv.spends
    have hreturns := hadv.returns
    unfold left begun
    rw [hpoint]
    exact ⟨by omega, by omega, hadv.told⟩
  cases a with
  | run i => exact hown i (advances_run h hst)
  | create i created => exact hown i (advances_create h hst)
  | call i =>
    unfold Step step call at hst
    cases hp : s.point i with
    | idle =>
      simp only [hp, Option.some.injEq] at hst
      subst hst
      have htotal := total_update weight s.point i .check
      have hcount := count_update Point.busy s.point i .check
      rw [hp] at htotal hcount
      simp only [weight, Point.busy, Bool.toNat_true, Bool.toNat_false] at htotal hcount
      have hsame : unmade (s.move i .check) = unmade s := rfl
      unfold left begun
      rw [hsame]
      simp only [move, Act.isCall, Bool.toNat_true]
      exact ⟨by omega, by omega, id⟩
    | check | lock | recheck | construct | publish | initThreadPool | loop | create | unlock | ret
      | undefined => simp [hp] at hst

/-- What holds of every state. -/
def Kept (s : GetInstance ι) : Prop := Reachable (Step step) start s ∧ Told s

omit [Fintype ι] in
theorem Kept.sim (h : Kept s) : ∃ l, Sim Published s l := by
  obtain ⟨⟨acts, hrun⟩, -⟩ := h
  obtain ⟨-, l, -, hsim⟩ := getInstance_refines hrun
  exact ⟨l, hsim⟩

theorem Kept.step (h : Kept s) (hst : Step step s a s') : Kept s' := by
  obtain ⟨l, hsim⟩ := h.sim
  obtain ⟨⟨acts, hrun⟩, htold⟩ := h
  exact ⟨⟨_, hrun.snoc hst⟩, (spends_step hsim hst).2.2 htold⟩

omit [Fintype ι] in
theorem kept_start : Kept (start : GetInstance ι) := ⟨⟨[], .nil⟩, fun h => absurd rfl h⟩

/-- The calls in a list of actions. -/
def calls (acts : List (Act ι)) : Nat := acts.countP Act.isCall

/-- **The run lemma.** The calls pay for all steps but those that make the pool. -/
theorem spends_run (h : Run (Step step) start acts s) :
    acts.length + left s ≤ 6 * calls acts + 14 ∧ begun s = calls acts := by
  have hkeep : ∀ (s : GetInstance ι) a t, Kept s → Step step s a t → Kept t :=
    fun _ _ _ hk hst => hk.step hst
  have hspends : acts.length + left s ≤ left (start : GetInstance ι) + 6 * calls acts := by
    refine h.spends hkeep ?_ kept_start
    intro s a t hk hst
    obtain ⟨l, hsim⟩ := hk.sim
    exact (spends_step hsim hst).1
  have hcounts : begun s = begun (start : GetInstance ι) + calls acts := by
    refine h.counts hkeep ?_ kept_start
    intro s a t hk hst
    obtain ⟨l, hsim⟩ := hk.sim
    exact (spends_step hsim hst).2.1
  have hleft : left (start : GetInstance ι) = 14 := by
    have hzero : total weight (start : GetInstance ι).point = 0 := total_eq_zero.2 fun _ => rfl
    unfold left
    rw [hzero]
    rfl
  have hbegun : begun (start : GetInstance ι) = 0 := by
    have hzero : count Point.busy (start : GetInstance ι).point = 0 := count_eq_zero fun _ => rfl
    unfold begun
    rw [hzero]
    rfl
  exact ⟨by omega, by omega⟩

/-! ## Nobody waits for ever -/

omit [Fintype ι] in
/-- The owner of the lock can go on. -/
theorem exists_inside {i : ι} (hi : (s.point i).inside = true) :
    ∃ a : Act ι, a.isCall = false ∧ (s.step a).isSome = true := by
  cases hp : s.point i with
  | idle | check | lock | ret | undefined =>
    rw [hp] at hi
    cases hi
  | recheck | construct | publish | unlock => exact ⟨.run i, rfl, by simp [step, run, hp]⟩
  | initThreadPool => exact ⟨.run i, rfl, by cases hins : s.ins <;> simp [step, run, hp, hins]⟩
  | loop p k =>
    refine ⟨.run i, rfl, ?_⟩
    cases hpool : s.pools[p]? with
    | none => simp [step, run, hp, hpool]
    | some pool =>
      simp only [step, run, hp, hpool]
      split_ifs <;> rfl
  | create p k => exact ⟨.create i true, rfl, by simp [step, create, hp]⟩

omit [Fintype ι] in
/-- **No deadlock.** A thread in a call can go on, or it waits for one that can. -/
theorem exists_step (h : Sim Published s l) {i : ι} (hi : s.point i ≠ .idle) :
    ∃ a : Act ι, a.isCall = false ∧ (s.step a).isSome = true := by
  cases hp : s.point i with
  | idle => exact absurd hp hi
  | check | ret => exact ⟨.run i, rfl, by simp [step, run, hp]⟩
  | lock =>
    cases hlock : s.lock with
    | none => exact ⟨.run i, rfl, by simp [step, run, hp, hlock]⟩
    | some j => exact exists_inside ((h.staged.owner j).1 hlock)
  | recheck | construct | publish | initThreadPool | loop | create | unlock =>
    exact exists_inside (i := i) (by rw [hp]; rfl)
  | undefined =>
    have ha := h.staged.points i
    rw [hp] at ha
    exact ha.elim

/-- The steps of the calls that have begun. -/
def Goes : GetInstance ι → Act ι → GetInstance ι → Prop :=
  Guarded (fun _ a => a.isCall = false) (Step step)

omit [Fintype ι] in
theorem idle_of_final (h : Kept s) (hfinal : Final Goes s) (i : ι) : s.point i = .idle := by
  obtain ⟨l, hsim⟩ := h.sim
  by_contra hi
  obtain ⟨a, hcalls, ha⟩ := exists_step hsim hi
  obtain ⟨t, hst⟩ := Option.isSome_iff_exists.1 ha
  exact hfinal a t ⟨hcalls, hst⟩

omit [Fintype ι] [DecidableEq ι] in
/-- When all threads are outside, there is no pool or a finished one. -/
theorem finished_of_idle (h : Sim Published s l) (hidle : ∀ i, s.point i = .idle)
    (hins : s.ins ≠ none) : ∃ w, l = .finished w := by
  have hlock : s.lock = none := by
    cases hlock : s.lock with
    | none => rfl
    | some j =>
      have hinside := (h.staged.owner j).1 hlock
      rw [hidle j] at hinside
      cases hinside
  rw [h.shows.ins] at hins
  cases l with
  | absent => exact absurd rfl hins
  | finished w => exact ⟨w, rfl⟩
  | built | published | filling => exact absurd hlock (h.held rfl)

/-- **`GetInstance` returns, and one pool is made.** However the threads are scheduled, a run with
    `n` calls, and its continuation without a further one, has at most `6 * n + 14` steps, and it can
    be continued until no call can go on. Then all of them have returned, and if there was one, there
    is exactly one pool, with `InitThreadPool` called and done exactly once. -/
theorem getInstance_ends (h : Run (Step step) start acts s) :
    (∃ rest t, Run Goes s rest t ∧ Final Goes t) ∧
      ∀ rest t, Run Goes s rest t → acts.length + rest.length ≤ 6 * calls acts + 14 ∧
        (Final Goes t → (∀ i, t.point i = .idle) ∧ t.returned.length = calls acts ∧
          (0 < calls acts →
            t.pools.length = 1 ∧ t.inits.length = 1 ∧ t.completed.length = 1)) := by
  have hkeep : ∀ (s : GetInstance ι) a t, Kept s → Goes s a t → Kept t :=
    fun _ _ _ hk hst => hk.step hst.2
  have hgoes : ∀ (s : GetInstance ι) a t, Kept s → Goes s a t →
      left t + 1 ≤ left s ∧ begun t = begun s := by
    intro s a t hk hst
    obtain ⟨l, hsim⟩ := hk.sim
    have hspend := spends_step hsim hst.2
    rw [hst.1] at hspend
    exact ⟨hspend.1, hspend.2.1⟩
  have hkept : Kept s := h.invariant (fun _ _ _ hk hst => hk.step hst) kept_start
  obtain ⟨hlength, hbegun⟩ := spends_run h
  constructor
  · exact exists_final hkeep (fun s a t hk hst => (hgoes s a t hk hst).1) hkept
  · intro rest t hrest
    have hfalls := hrest.falls hkeep (fun s a t hk hst => (hgoes s a t hk hst).1) hkept
    refine ⟨by omega, ?_⟩
    intro hfinal
    have hkept' : Kept t ∧ begun t = calls acts := by
      refine hrest.invariant (I := fun t => Kept t ∧ begun t = calls acts) ?_ ⟨hkept, hbegun⟩
      rintro s a t ⟨hk, hb⟩ hst
      exact ⟨hkeep s a t hk hst, (hgoes s a t hk hst).2.trans hb⟩
    obtain ⟨hkt, hbt⟩ := hkept'
    have hidle := idle_of_final hkt hfinal
    have hnone : count Point.busy t.point = 0 := count_eq_zero fun i => by rw [hidle i]; rfl
    have hreturned : t.returned.length = calls acts := by
      unfold begun at hbt
      omega
    refine ⟨hidle, hreturned, ?_⟩
    intro hcalls
    have hsome : t.returned ≠ [] := by
      intro hnil
      rw [hnil, List.length_nil] at hreturned
      omega
    obtain ⟨l, hsim⟩ := hkt.sim
    obtain ⟨w, rfl⟩ := finished_of_idle hsim hidle (hkt.2 hsome)
    rw [hsim.shows.pools, hsim.shows.inits, hsim.shows.completed]
    exact ⟨rfl, rfl, rfl⟩

/-- Both threads return after the second one has been let in early. -/
theorem getInstance_ends_early :
    ∃ s rest t, Run (Step step) start earlyActs s ∧ Run Goes s rest t ∧
      t.returned.length = 2 ∧ t.pools.length = 1 := by
  obtain ⟨s, hrun, -⟩ := exec_exists step (start : GetInstance (Fin 2)) earlyActs
    (p := fun _ => True) (by decide +kernel)
  obtain ⟨⟨rest, t, hrest, hfinal⟩, hends⟩ := getInstance_ends hrun
  obtain ⟨-, hreturned, hone⟩ := (hends rest t hrest).2 hfinal
  exact ⟨s, rest, t, hrun, hrest, hreturned, (hone (by decide)).1⟩

end Runs

end SystemCallLearn.Pthread.GetInstance
