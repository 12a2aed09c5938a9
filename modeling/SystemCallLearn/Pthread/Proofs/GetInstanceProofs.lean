import SystemCallLearn.Lib.Stage
import SystemCallLearn.Pthread.GetInstance

/-!
# `GetInstance`: one pool, and when it is handed out

The pool has a life: it is made, published in `ins`, filled with workers and finished. Only the
owner of the lock takes it one step further. Nothing is made twice because a life is not begun
again; but a pool is visible from its publication on, so a call that skips the lock may return it
before it is finished.
-/

namespace SystemCallLearn.Pthread.GetInstance

open SystemCallLearn.Lib

/-! ## The life of the pool -/

/-- What has become of the one pool; `filling i w` is the `for` loop of `InitThreadPool` at `i`,
    with `w` workers created. -/
inductive Life where
  | absent
  | built
  | published
  | filling (i w : Nat)
  | finished (w : Nat)

namespace Life

inductive Act where
  | build
  | publish
  | begin
  | create (created : Bool)
  | finish

/-- A life goes forward only. -/
def step : Life → Act → Option Life
  | absent, .build => some built
  | built, .publish => some published
  | published, .begin => some (filling 0 0)
  | filling i w, .create created =>
    if i < gNum then some (filling (i + 1) (w + created.toNat)) else none
  | filling i w, .finish => if i < gNum then none else some (finished w)
  | _, _ => none

def ins : Life → Option Nat
  | absent | built => none
  | published | filling _ _ | finished _ => some 0

def pools : Life → List Pool
  | absent => []
  | built | published => [threadPool]
  | filling _ w | finished w => [{ threadPool with workers := w }]

def inits : Life → List Nat
  | absent | built | published => []
  | filling _ _ | finished _ => [0]

def completed : Life → List Nat
  | finished _ => [0]
  | _ => []

/-- What a call returns. -/
def read (l : Life) : Returned where
  ins := l.ins
  initialised := l.ins.any fun p => decide (p ∈ l.completed)
  pool := l.ins.bind fun p => l.pools[p]?

/-- The pool is being made, which takes the lock. -/
def making : Life → Bool
  | absent | finished _ => false
  | built | published | filling _ _ => true

/-- Every worker was created that should have been by now. -/
def Full : Life → Prop
  | filling i w => w = i ∧ i ≤ gNum
  | finished w => w = gNum
  | _ => True

variable {l l' : Life} {b : Act}

/-- A published pool stays where it is. -/
theorem published_step (h : l.step b = some l') (hp : l.ins = some 0) : l'.ins = some 0 := by
  cases l with
  | absent | built => cases hp
  | published =>
    cases b <;> cases h
    rfl
  | filling i w =>
    cases b with
    | create created =>
      simp only [step] at h
      split_ifs at h
      obtain rfl := Option.some.inj h
      rfl
    | finish =>
      simp only [step] at h
      split_ifs at h
      obtain rfl := Option.some.inj h
      rfl
    | build | publish | begin => cases h
  | finished w => cases b <;> cases h

theorem full_step (h : l.step b = some l') (hb : b ≠ .create false) (hf : l.Full) : l'.Full := by
  cases l with
  | absent | built | published =>
    cases b <;> cases h
    all_goals simp [Full]
  | filling i w =>
    obtain ⟨rfl, hle⟩ := hf
    cases b with
    | create created =>
      simp only [step] at h
      split_ifs at h with hlt
      obtain rfl := Option.some.inj h
      cases created with
      | false => exact absurd rfl hb
      | true => exact ⟨rfl, hlt⟩
    | finish =>
      simp only [step] at h
      split_ifs at h with hlt
      obtain rfl := Option.some.inj h
      exact Nat.le_antisymm hle (Nat.le_of_not_lt hlt)
    | build | publish | begin => cases h
  | finished w => cases b <;> cases h

end Life

/-! ## The threads live with it -/

/-- The points inside the critical section. -/
def Point.inside : Point → Bool
  | .recheck | .construct | .publish _ | .initThreadPool | .loop _ _ | .create _ _ | .unlock => true
  | .idle | .check | .lock | .ret | .undefined => false

/-- Where a thread may be in a life of the pool; `ready` says in which lives it may return. -/
def Allows (ready : Life → Prop) (l : Life) : Point → Prop
  | .idle | .check | .lock => True
  | .recheck => l.making = false
  | .construct => l = .absent
  | .publish p => l = .built ∧ p = 0
  | .initThreadPool => l = .published
  | .loop p i => p = 0 ∧ ∃ w, l = .filling i w
  | .create p i => p = 0 ∧ i < gNum ∧ ∃ w, l = .filling i w
  | .unlock => ∃ w, l = .finished w
  | .ret => ready l
  | .undefined => False

variable {ι : Type}

/-- The statics and the heap show this life. -/
structure Shows (s : GetInstance ι) (l : Life) : Prop where
  ins : s.ins = l.ins
  pools : s.pools = l.pools
  inits : s.inits = l.inits
  completed : s.completed = l.completed

/-- The simulation: the state shows the life, the lock is taken while the pool is being made, and
    each call has returned what a life ready for it shows. -/
structure Sim (ready : Life → Prop) (s : GetInstance ι) (l : Life) : Prop where
  shows : Shows s l
  held : l.making = true → s.lock ≠ none
  staged : Staged s.lock s.point Point.inside (Allows ready) l
  returned : ∀ x ∈ s.returned, ∃ l, ready l ∧ x = l.read

/-- A life that is ready stays ready. -/
def Stable (ready : Life → Prop) : Prop := ∀ l l' b, Life.step l b = some l' → ready l → ready l'

/-- The state shows the life `l` still, or the one after its next step, which is no `pthread_create`
    that fails. -/
def Moves (ready : Life → Prop) (l : Life) (s : GetInstance ι) : Prop :=
  ∃ l', (l' = l ∨ ∃ b, l.step b = some l' ∧ b ≠ .create false) ∧ Sim ready s l'

section Steps

variable {ready : Life → Prop} {s s' : GetInstance ι} {l l' : Life} {i : ι} {pt : Point}

theorem sim_start (ready : Life → Prop) : Sim ready (start : GetInstance ι) .absent where
  shows := ⟨rfl, rfl, rfl, rfl⟩
  held := by
    intro h
    cases h
  staged := ⟨owns_none fun _ => rfl, fun _ => trivial⟩
  returned := by
    intro x hx
    cases hx

/-- What a thread outside the critical section relies on: a life that is ready stays ready. -/
theorem allows_outside (hmono : ready l → ready l') (hpt : pt.inside = false)
    (h : Allows ready l pt) : Allows ready l' pt := by
  cases pt with
  | idle | check | lock => trivial
  | ret => exact hmono h
  | undefined => cases h
  | recheck | construct | publish | initThreadPool | loop | create | unlock => cases hpt

theorem Shows.frame (h : Shows s l) (hs : (s'.ins, s'.pools, s'.inits, s'.completed) =
    (s.ins, s.pools, s.inits, s.completed)) : Shows s' l := by
  simp only [Prod.mk.injEq] at hs
  obtain ⟨hins, hpools, hinits, hcompleted⟩ := hs
  exact ⟨hins.trans h.ins, hpools.trans h.pools, hinits.trans h.inits,
    hcompleted.trans h.completed⟩

theorem Shows.read (h : Shows s l) : s.read = l.read := by
  unfold GetInstance.read Life.read
  rw [h.ins, h.pools, h.completed]

theorem Sim.finished (h : Sim ready s l) (hi : s.point i = .unlock) : ∃ w, l = .finished w := by
  have ha := h.staged.points i
  rwa [hi] at ha

variable [DecidableEq ι]

/-- A thread moves on its side of the lock, and nothing else changes. -/
theorem Sim.keep (h : Sim ready s l) (hpt : pt.inside = (s.point i).inside)
    (ha : Allows ready l pt) : Sim ready (s.move i pt) l where
  shows := h.shows.frame rfl
  held := h.held
  staged := h.staged.keep hpt ha
  returned := h.returned

/-- The owner of the lock takes the life one step further. -/
theorem Sim.advance (h : Sim ready s l) (pt : Point) (hmono : ready l → ready l')
    (hi : (s.point i).inside = true) (hpt : pt.inside = true) (ha : Allows ready l' pt)
    (hpoint : s'.point = (s.move i pt).point) (hlock : s'.lock = s.lock)
    (hreturned : s'.returned = s.returned) (hshows : Shows s' l') : Sim ready s' l' := by
  refine ⟨hshows, ?_, ?_, ?_⟩
  · intro _
    rw [hlock, h.staged.owned hi]
    exact Option.some_ne_none i
  · rw [hlock, hpoint]
    exact h.staged.advance hi (fun y hy => allows_outside hmono hy) hpt ha
  · rw [hreturned]
    exact h.returned

/-- A thread takes the free lock: the pool is not being made. -/
theorem Sim.lock (h : Sim ready s l) (hlock : s.lock = none) (i : ι) :
    Sim ready { s.move i .recheck with lock := some i } l := by
  have hidle : l.making = false := by
    cases hm : l.making with
    | false => rfl
    | true => exact absurd hlock (h.held hm)
  have hfree := h.staged
  rw [hlock] at hfree
  refine ⟨h.shows.frame rfl, ?_, ?_, h.returned⟩
  · intro _
    exact Option.some_ne_none i
  · exact hfree.acquire rfl hidle

/-- The test of the `for` loop: the next worker, or the end of `InitThreadPool`. -/
theorem Sim.loop (h : Sim ready s l) (hmono : Stable ready) {p k : Nat}
    (hp : s.point i = .loop p k) (hst : s.run i = some s') : Moves ready l s' := by
  have ha := h.staged.points i
  rw [hp] at ha
  simp only [GetInstance.run, hp] at hst
  obtain ⟨rfl, w, rfl⟩ := ha
  have hpool : s.pools[0]? = some { threadPool with workers := w } := by
    rw [h.shows.pools]
    rfl
  simp only [hpool] at hst
  by_cases hk : k < gNum
  · rw [if_pos (show k < ({ threadPool with workers := w } : Pool).num from hk),
      Option.some.injEq] at hst
    subst hst
    exact ⟨_, .inl rfl, h.keep (by rw [hp]; rfl) ⟨rfl, hk, w, rfl⟩⟩
  · rw [if_neg (show ¬ k < ({ threadPool with workers := w } : Pool).num from hk),
      Option.some.injEq] at hst
    subst hst
    have hstep : (Life.filling k w).step .finish = some (.finished w) := if_neg hk
    refine ⟨.finished w, .inr ⟨.finish, hstep, by simp⟩, ?_⟩
    refine h.advance .unlock (hmono _ _ .finish hstep) (by rw [hp]; rfl) rfl ⟨w, rfl⟩ rfl rfl rfl
      ⟨h.shows.ins, h.shows.pools, h.shows.inits, ?_⟩
    show s.completed ++ [0] = _
    rw [h.shows.completed]
    rfl

/-- A call begins. -/
theorem Sim.call (h : Sim ready s l) (hst : s.call i = some s') : Sim ready s' l := by
  unfold GetInstance.call at hst
  cases hp : s.point i with
  | idle =>
    simp only [hp, Option.some.injEq] at hst
    subst hst
    exact h.keep (by rw [hp]; rfl) trivial
  | check | lock | recheck | construct | publish | initThreadPool | loop | create | unlock | ret
    | undefined => simp [hp] at hst

/-- A worker is created, or not. -/
theorem Sim.create (h : Sim ready s l) (hmono : Stable ready) {created : Bool}
    (hst : s.create i created = some s') :
    ∃ l', l.step (.create created) = some l' ∧ Sim ready s' l' := by
  unfold GetInstance.create at hst
  cases hp : s.point i with
  | create p k =>
    simp only [hp, Option.some.injEq] at hst
    subst hst
    have ha := h.staged.points i
    rw [hp] at ha
    obtain ⟨rfl, hk, w, rfl⟩ := ha
    have hstep : (Life.filling k w).step (.create created) =
        some (.filling (k + 1) (w + created.toNat)) := if_pos hk
    refine ⟨_, hstep, ?_⟩
    refine h.advance (.loop 0 (k + 1)) (hmono _ _ _ hstep) (by rw [hp]; rfl) rfl
      ⟨rfl, _, rfl⟩ rfl rfl rfl ?_
    refine ⟨h.shows.ins, ?_, h.shows.inits, h.shows.completed⟩
    show s.pools.modify 0 _ = _
    rw [h.shows.pools]
    rfl
  | idle | check | lock | recheck | construct | publish | initThreadPool | loop | unlock | ret
    | undefined => simp [hp] at hst

/-- `new ThreadPool<T>()` -/
theorem Sim.construct (h : Sim ready s l) (hmono : Stable ready) (hp : s.point i = .construct)
    (hst : s.run i = some s') : Moves ready l s' := by
  have ha := h.staged.points i
  rw [hp] at ha
  obtain rfl : l = .absent := ha
  simp only [GetInstance.run, hp, Option.some.injEq] at hst
  subst hst
  refine ⟨.built, .inr ⟨.build, rfl, by simp⟩, ?_⟩
  refine h.advance (.publish s.pools.length) (hmono _ _ .build rfl) (by rw [hp]; rfl) rfl
    ⟨rfl, ?_⟩ rfl rfl rfl ?_
  · rw [h.shows.pools]
    rfl
  · refine ⟨h.shows.ins, ?_, h.shows.inits, h.shows.completed⟩
    show s.pools ++ [threadPool] = _
    rw [h.shows.pools]
    rfl

/-- The assignment to `ins`. -/
theorem Sim.publish (h : Sim ready s l) (hmono : Stable ready) {p : Nat}
    (hp : s.point i = .publish p) (hst : s.run i = some s') : Moves ready l s' := by
  have ha := h.staged.points i
  rw [hp] at ha
  obtain ⟨rfl, rfl⟩ := ha
  simp only [GetInstance.run, hp, Option.some.injEq] at hst
  subst hst
  refine ⟨.published, .inr ⟨.publish, rfl, by simp⟩, ?_⟩
  exact h.advance .initThreadPool (hmono _ _ .publish rfl) (by rw [hp]; rfl) rfl rfl rfl rfl rfl
    ⟨rfl, h.shows.pools, h.shows.inits, h.shows.completed⟩

/-- The call of `InitThreadPool`: `ins` is not null. -/
theorem Sim.initThreadPool (h : Sim ready s l) (hmono : Stable ready)
    (hp : s.point i = .initThreadPool) (hst : s.run i = some s') : Moves ready l s' := by
  have ha := h.staged.points i
  rw [hp] at ha
  obtain rfl : l = .published := ha
  have hins : s.ins = some 0 := h.shows.ins
  simp only [GetInstance.run, hp, hins, Option.some.injEq] at hst
  subst hst
  refine ⟨.filling 0 0, .inr ⟨.begin, rfl, by simp⟩, ?_⟩
  refine h.advance (.loop 0 0) (hmono _ _ .begin rfl) (by rw [hp]; rfl) rfl ⟨rfl, 0, rfl⟩ rfl rfl
    rfl ⟨h.shows.ins, h.shows.pools, ?_, h.shows.completed⟩
  show s.inits ++ [0] = _
  rw [h.shows.inits]
  rfl

/-- `return ins;` in a life that is ready. -/
theorem Sim.ret (h : Sim ready s l) (hp : s.point i = .ret) :
    Sim ready { s.move i .idle with returned := s.returned ++ [s.read] } l := by
  have ha := h.staged.points i
  rw [hp] at ha
  refine ⟨h.shows.frame rfl, h.held, h.staged.keep (by rw [hp]; rfl) trivial, ?_⟩
  intro x hx
  rcases List.mem_append.1 hx with hx | hx
  · exact h.returned x hx
  · rw [List.mem_singleton.1 hx, h.shows.read]
    exact ⟨l, ha, rfl⟩

/-- A thread runs a statement. It comes to return when it has found `ins` set, or has left the
    critical section: there the life has to be ready. -/
theorem Sim.run (h : Sim ready s l) (hmono : Stable ready)
    (hready : s.point i = .check ∧ l.ins ≠ none ∨ s.point i = .unlock → ready l)
    (hst : s.run i = some s') : Moves ready l s' := by
  cases hp : s.point i with
  | idle | create | undefined => simp [GetInstance.run, hp] at hst
  | check =>
    simp only [GetInstance.run, hp, Option.some.injEq] at hst
    subst hst
    refine ⟨l, .inl rfl, h.keep ?_ ?_⟩
    · rw [hp]
      split_ifs <;> rfl
    · split_ifs with hins
      · trivial
      · rw [h.shows.ins] at hins
        exact hready (.inl ⟨hp, hins⟩)
  | lock =>
    simp only [GetInstance.run, hp] at hst
    cases hlock : s.lock with
    | some j => simp [hlock] at hst
    | none =>
      simp only [hlock, Option.some.injEq] at hst
      subst hst
      exact ⟨l, .inl rfl, h.lock hlock i⟩
  | recheck =>
    have ha := h.staged.points i
    rw [hp] at ha
    simp only [GetInstance.run, hp, Option.some.injEq] at hst
    subst hst
    refine ⟨l, .inl rfl, h.keep ?_ ?_⟩
    · rw [hp]
      split_ifs <;> rfl
    · rw [h.shows.ins]
      cases l with
      | absent => rfl
      | finished w => exact ⟨w, rfl⟩
      | built | published | filling => cases ha
  | construct => exact h.construct hmono hp hst
  | publish p => exact h.publish hmono hp hst
  | initThreadPool => exact h.initThreadPool hmono hp hst
  | loop p k => exact h.loop hmono hp hst
  | unlock =>
    simp only [GetInstance.run, hp, Option.some.injEq] at hst
    subst hst
    obtain ⟨w, rfl⟩ := h.finished hp
    refine ⟨_, .inl rfl, h.shows.frame rfl, ?_, ?_, h.returned⟩
    · intro hm
      cases hm
    · exact h.staged.release (by rw [hp]; rfl) rfl (hready (.inr hp))
  | ret =>
    simp only [GetInstance.run, hp, Option.some.injEq] at hst
    subst hst
    exact ⟨l, .inl rfl, h.ret hp⟩

theorem Sim.step (h : Sim ready s l) (hmono : Stable ready) {a : Act ι}
    (hready : ∀ i, a = .run i → s.point i = .check ∧ l.ins ≠ none ∨ s.point i = .unlock → ready l)
    (hst : s.step a = some s') :
    ∃ bs l', Run (Step Life.step) l bs l' ∧ (.create false ∈ bs → ∃ i, a = .create i false) ∧
      Sim ready s' l' := by
  cases a with
  | call i => exact ⟨[], l, .nil, by simp, h.call hst⟩
  | run i =>
    obtain ⟨l', rfl | ⟨b, hb, hne⟩, hsim⟩ := h.run hmono (hready i rfl) hst
    · exact ⟨[], l', .nil, by simp, hsim⟩
    · exact ⟨[b], l', .single hb, by simp [Ne.symm hne], hsim⟩
  | create i created =>
    obtain ⟨l', hl', hsim⟩ := h.create hmono hst
    refine ⟨[.create created], l', .single hl', ?_, hsim⟩
    intro hmem
    simp only [List.mem_singleton, Life.Act.create.injEq] at hmem
    exact ⟨i, by rw [hmem]⟩

end Steps

/-! ## One pool -/

section Runs

variable {ι : Type} [DecidableEq ι]

/-- The lives in which `ins` is set. -/
def Published (l : Life) : Prop := l.ins = some 0

theorem published_of_ne {l : Life} (h : l.ins ≠ none) : Published l := by
  cases l with
  | absent | built => exact absurd rfl h
  | published | filling | finished => rfl

/-- **`GetInstance` refines the life of one pool.** -/
theorem getInstance_refines {acts : List (Act ι)} {s : GetInstance ι}
    (h : Run (Step step) start acts s) :
    ∃ bs l, Run (Step Life.step) .absent bs l ∧ Sim Published s l := by
  refine h.simulate ?_ (sim_start Published)
  intro s a s' l hsim hst
  have hready : ∀ i, a = .run i → s.point i = .check ∧ l.ins ≠ none ∨ s.point i = .unlock →
      Published l := by
    rintro i rfl (⟨-, hins⟩ | hunlock)
    · exact published_of_ne hins
    · obtain ⟨w, rfl⟩ := hsim.finished hunlock
      rfl
  obtain ⟨bs, l', hrun, -, hsim'⟩ := hsim.step (fun _ _ _ => Life.published_step) hready hst
  exact ⟨bs, l', hrun, hsim'⟩

/-- **One pool.** In every run of any threads the constructor has been run at most once and
    `InitThreadPool` at most once, and all calls have returned the same pointer, which is not
    null. -/
theorem getInstance_once (acts : List (Act ι)) (s : GetInstance ι)
    (h : Run (Step step) start acts s) :
    s.pools.length ≤ 1 ∧ s.inits.length ≤ 1 ∧ ∃ p, ∀ x ∈ s.returned, x.ins = some p := by
  obtain ⟨-, l, -, hsim⟩ := getInstance_refines h
  refine ⟨?_, ?_, 0, ?_⟩
  · rw [hsim.shows.pools]
    cases l <;> simp [Life.pools]
  · rw [hsim.shows.inits]
    cases l <;> simp [Life.inits]
  · intro x hx
    obtain ⟨l', hready, rfl⟩ := hsim.returned x hx
    exact hready

/-- Two threads find `ins` null; the one that gets the lock makes the pool, and then the other gets
    it. -/
def raceActs : List (Act (Fin 2)) :=
  [.call 0, .run 0, .call 1, .run 1, .run 0, .run 0, .run 0, .run 0, .run 0] ++
    (List.replicate 5 [.run 0, .create 0 true]).flatten ++
    [.run 0, .run 0, .run 1, .run 1, .run 1, .run 1, .run 0]

theorem getInstance_once_race :
    ∃ s, Run (Step step) start raceActs s ∧ s.returned.length = 2 ∧ s.pools.length ≤ 1 ∧
      s.inits.length ≤ 1 ∧ ∃ p, ∀ x ∈ s.returned, x.ins = some p := by
  obtain ⟨s, hrun, hlen⟩ := exec_exists step (start : GetInstance (Fin 2)) raceActs
    (p := fun s => s.returned.length = 2) (by decide +kernel)
  exact ⟨s, hrun, hlen, getInstance_once raceActs s hrun⟩

/-! ## A finished pool -/

/-- No thread makes its first test of `ins` between the assignment to it and the end of
    `InitThreadPool`, and every worker is created. -/
def ChecksFinished (s : GetInstance ι) : Act ι → Prop
  | .call _ => True
  | .run i => s.point i = .check → ∀ p ∈ s.ins, p ∈ s.completed
  | .create _ created => created = true

instance (s : GetInstance ι) : (a : Act ι) → Decidable (ChecksFinished s a)
  | .call _ => isTrue trivial
  | .run i => inferInstanceAs (Decidable (s.point i = .check → ∀ p ∈ s.ins, p ∈ s.completed))
  | .create _ created => inferInstanceAs (Decidable (created = true))

/-- The life in which the pool has all its workers. -/
def Finished (l : Life) : Prop := l = .finished gNum

theorem finished_of_completed {l : Life} {p : Nat} (hf : l.Full) (hp : p ∈ l.completed) :
    Finished l := by
  cases l with
  | finished w => exact congrArg Life.finished hf
  | absent | built | published | filling => cases hp

theorem full_run {l l' : Life} {bs : List Life.Act} (h : Run (Step Life.step) l bs l')
    (hbs : .create false ∉ bs) (hf : l.Full) : l'.Full := by
  have hguarded : Run (Guarded (fun _ b => b ≠ .create false) (Step Life.step)) l bs l' :=
    h.guarded fun b hb _ heq => hbs (heq ▸ hb)
  exact hguarded.invariant (fun _ _ _ hf hst => Life.full_step hst.2 hst.1 hf) hf

/-- Where every first test finds a finished pool or none, a call returns in the last life only. -/
theorem sim_finished {acts : List (Act ι)} {s : GetInstance ι}
    (h : Run (Guarded ChecksFinished (Step step)) start acts s) :
    ∃ l, Sim Finished s l ∧ l.Full := by
  refine h.invariant (I := fun s => ∃ l, Sim Finished s l ∧ l.Full) ?_
    ⟨.absent, sim_start Finished, trivial⟩
  rintro s a s' ⟨l, hsim, hf⟩ ⟨hok, hst⟩
  have hmono : Stable Finished := by
    rintro l l' b hb rfl
    cases b <;> cases hb
  have hready : ∀ i, a = .run i → s.point i = .check ∧ l.ins ≠ none ∨ s.point i = .unlock →
      Finished l := by
    rintro i rfl (⟨hcheck, hins⟩ | hunlock)
    · have hmem := hok hcheck 0 (hsim.shows.ins.trans (published_of_ne hins))
      rw [hsim.shows.completed] at hmem
      exact finished_of_completed hf hmem
    · obtain ⟨w, rfl⟩ := hsim.finished hunlock
      exact congrArg Life.finished hf
  obtain ⟨bs, l', hrun, hbs, hsim'⟩ := hsim.step hmono hready hst
  refine ⟨l', hsim', full_run hrun ?_ hf⟩
  intro hmem
  obtain ⟨i, rfl⟩ := hbs hmem
  cases hok

/-- **A pool is handed out finished exactly when nobody looks too early.** In every run in which no
    thread makes its first test of `ins` between the assignment and the end of `InitThreadPool`, and
    in which every worker is created, each call returns a pool on which `InitThreadPool` is done and
    which has all its workers. Conversely a thread that makes the test there can go on to return the
    unfinished pool. -/
theorem getInstance_finished (acts : List (Act ι)) (s : GetInstance ι) :
    (Run (Guarded ChecksFinished (Step step)) start acts s → ∀ x ∈ s.returned,
      x.initialised = true ∧ ∃ pool, x.pool = some pool ∧ pool.workers = pool.num) ∧
    (∀ i p, s.point i = .check → s.ins = some p → p ∉ s.completed →
      ∃ t, Run (Step step) s [.run i, .run i] t ∧
        ∃ x ∈ t.returned, x.ins = some p ∧ x.initialised = false) := by
  constructor
  · intro hrun x hx
    obtain ⟨l, hsim, -⟩ := sim_finished hrun
    obtain ⟨l', rfl, rfl⟩ := hsim.returned x hx
    exact ⟨by decide, _, rfl, rfl⟩
  · intro i p hcheck hins hnot
    have hfirst : s.step (.run i) = some (s.move i .ret) := by
      simp [step, run, hcheck, hins]
    have hsecond : (s.move i .ret).step (.run i) =
        some { (s.move i .ret).move i .idle with
          returned := s.returned ++ [(s.move i .ret).read] } := by
      simp [step, run, move]
    refine ⟨_, .snoc (.single hfirst) hsecond, (s.move i .ret).read, ?_, ?_, ?_⟩
    · exact List.mem_append_right _ (List.mem_singleton_self _)
    · simp [read, move, hins]
    · simp [read, move, hins, hnot]

/-- The race again: both first tests are made before there is a pool. -/
theorem getInstance_finished_race :
    ∃ s, Run (Guarded ChecksFinished (Step step)) start raceActs s ∧ s.returned.length = 2 ∧
      ∀ x ∈ s.returned, x.initialised = true ∧
        ∃ pool, x.pool = some pool ∧ pool.workers = pool.num := by
  have hany : (exec (fun s a => if ChecksFinished s a then step s a else none)
      (start : GetInstance (Fin 2)) raceActs).any (fun s => decide (s.returned.length = 2)) =
        true := by
    decide +kernel
  obtain ⟨s, hs, hlen⟩ := exists_of_any hany
  have hrun := exec_guarded hs
  exact ⟨s, hrun, hlen, (getInstance_finished raceActs s).1 hrun⟩

/-- The first thread has set `ins` and is to call `InitThreadPool`; the second one calls
    `GetInstance`. -/
def earlyActs : List (Act (Fin 2)) :=
  [.call 0, .run 0, .run 0, .run 0, .run 0, .run 0, .call 1, .run 1, .run 1]

/-- **An unfinished pool is handed out.** The second thread gets a pool that has none of its five
    workers. -/
theorem getInstance_returns_early :
    ∃ s, Run (Step step) start earlyActs s ∧
      s.returned = [{ ins := some 0, initialised := false,
                      pool := some { num := 5, workers := 0 } }] :=
  exec_exists step (start : GetInstance (Fin 2)) earlyActs (by decide +kernel)

end Runs

end SystemCallLearn.Pthread.GetInstance
