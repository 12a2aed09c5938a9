import SystemCallLearn.Pthread.RingQueue
import SystemCallLearn.Lib.Fifo
import SystemCallLearn.Lib.Mutex
import SystemCallLearn.Lib.Ring
import SystemCallLearn.Lib.ThreadCount

/-!
# The ring queue refines a FIFO queue

The counting invariant ties the two semaphores to the accesses: every blank permit in the semaphore
or in the hand of a producer that has not stored yet, every value stored and not loaded, and every
consumer that has loaded and not posted yet account for one slot of the ring. It leaves a free slot
to a producer at its access and an unread value to a consumer at its access, whatever the order of
the posts, and so each access is an operation of the abstract queue.
-/

namespace SystemCallLearn.Pthread

open SystemCallLearn.Lib

/-! ## One side -/

/-- The thread owns the mutex of its side. -/
def Point.inside {A : Type} : Point A → Bool
  | .access _ | .increment | .wrap | .unlock => true
  | _ => false

/-- The thread has taken its permit and not accessed its slot yet. -/
def Point.early {A : Type} : Point A → Bool
  | .lock _ | .access _ => true
  | _ => false

/-- The thread has accessed its slot and not posted yet. -/
def Point.late {A : Type} : Point A → Bool
  | .increment | .wrap | .unlock | .post => true
  | _ => false

/-- What the index `k` of a side is after `n` accesses, while the owner of its mutex is at the given
    point: the slot of the next access, but for the part of the advance that is still to be done. -/
def Point.IndexOk {A : Type} (cap n k : Nat) : Point A → Prop
  | .increment => (k + 1) % cap = n % cap
  | .wrap => k % cap = n % cap
  | _ => k = n % cap

/-- The permits the statement takes. -/
def Effect.waits {A : Type} : Effect A → Nat
  | .wait => 1
  | _ => 0

/-- The slots the statement accesses. -/
def Effect.accesses {A : Type} : Effect A → Nat
  | .access _ => 1
  | _ => 0

/-- The permits the statement gives. -/
def Effect.posts {A : Type} : Effect A → Nat
  | .post => 1
  | _ => 0

/-- The invariant of a side after `n` accesses: the mutex belongs to the thread inside, and the
    index fits the point of the owner. -/
structure Side.Ok {ι A : Type} (cap n : Nat) (s : Side ι A) : Prop where
  owner : Owns s.mtx s.point Point.inside
  free : s.mtx = none → s.step = n % cap
  held : ∀ i, s.mtx = some i → (s.point i).IndexOk cap n s.step

section Side

variable {ι A : Type} {cap n : Nat} {s s' : Side ι A} {i : ι} {e : Effect A}

/-- A thread at its access is at the slot of the next position. -/
theorem Side.Ok.index_of_access (h : s.Ok cap n) {a : A} (hi : s.point i = .access a) :
    s.step = n % cap := by
  have hin : (s.point i).inside = true := by rw [hi]; rfl
  have hk := h.held i ((h.owner i).2 hin)
  rwa [hi] at hk

variable [DecidableEq ι]

@[simp] theorem Side.move_mtx (pt : Point A) : (s.move i pt).mtx = s.mtx := rfl

@[simp] theorem Side.move_step (pt : Point A) : (s.move i pt).step = s.step := rfl

@[simp] theorem Side.move_point (pt : Point A) :
    (s.move i pt).point = Function.update s.point i pt := rfl

/-- A move between points outside the mutex keeps the side's invariant. -/
theorem Side.Ok.move_outside (h : s.Ok cap n) {pt : Point A} (hi : (s.point i).inside = false)
    (hpt : pt.inside = false) : (s.move i pt).Ok cap n := by
  refine ⟨h.owner.keep (by rw [hpt, hi]), h.free, ?_⟩
  intro j hj
  have hin : (s.point j).inside = true := (h.owner j).1 hj
  have hji : j ≠ i := fun he => by rw [he, hi] at hin; cases hin
  simpa [hji] using h.held j hj

/-- The owner moves on inside its critical section, to a point that the index fits. -/
theorem Side.Ok.move_inside (h : s.Ok cap n) {pt : Point A} {m k : Nat}
    (hi : (s.point i).inside = true) (hpt : pt.inside = true) (hk : pt.IndexOk cap m k) :
    ({ s.move i pt with step := k } : Side ι A).Ok cap m := by
  have hm : s.mtx = some i := (h.owner i).2 hi
  refine ⟨h.owner.keep (by rw [hpt, hi]), ?_, ?_⟩
  · intro hn
    have hn' : s.mtx = none := hn
    rw [hm] at hn'
    cases hn'
  · intro j hj
    have hji : j = i := Option.some.inj (hj.symm.trans hm)
    subst hji
    simpa using hk

theorem Side.Ok.enter (h : s.Ok cap n) (hm : s.mtx = none) (a : A) :
    ({ s.move i (.access a) with mtx := some i } : Side ι A).Ok cap n := by
  have howner := h.owner
  rw [hm] at howner
  refine ⟨howner.acquire rfl, fun hn => (by cases hn), ?_⟩
  intro j hj
  have hij : i = j := Option.some.inj hj
  subst hij
  simpa [Point.IndexOk] using h.free hm

theorem Side.Ok.leave (h : s.Ok cap n) (hi : s.point i = .unlock) :
    ({ s.move i .post with mtx := none } : Side ι A).Ok cap n := by
  have hin : (s.point i).inside = true := by rw [hi]; rfl
  refine ⟨h.owner.release hin rfl, ?_, fun j hj => (by cases hj)⟩
  intro _
  have hk := h.held i ((h.owner i).2 hin)
  rwa [hi] at hk

/-- **A statement keeps its side's invariant**, counting the access it may make. -/
theorem Side.Ok.advance (h : s.Ok cap n) (hst : s.advance cap i = some (s', e)) :
    s'.Ok cap (n + e.accesses) := by
  cases hpt : s.point i with
  | idle => simp [Side.advance, hpt] at hst
  | wait a =>
    simp only [Side.advance, hpt, Option.some.injEq, Prod.mk.injEq] at hst
    obtain ⟨rfl, rfl⟩ := hst
    exact h.move_outside (by rw [hpt]; rfl) rfl
  | lock a =>
    cases hm : s.mtx with
    | some k => simp [Side.advance, hpt, hm] at hst
    | none =>
      simp only [Side.advance, hpt, hm, Option.some.injEq, Prod.mk.injEq] at hst
      obtain ⟨rfl, rfl⟩ := hst
      exact h.enter hm a
  | access a =>
    simp only [Side.advance, hpt, Option.some.injEq, Prod.mk.injEq] at hst
    obtain ⟨rfl, rfl⟩ := hst
    apply h.move_inside (by rw [hpt]; rfl) rfl
    show (s.step + 1) % cap = (n + 1) % cap
    rw [h.index_of_access hpt, Nat.mod_add_mod]
  | increment =>
    simp only [Side.advance, hpt, Option.some.injEq, Prod.mk.injEq] at hst
    obtain ⟨rfl, rfl⟩ := hst
    have hin : (s.point i).inside = true := by rw [hpt]; rfl
    have hk := h.held i ((h.owner i).2 hin)
    rw [hpt] at hk
    exact h.move_inside hin rfl hk
  | wrap =>
    simp only [Side.advance, hpt, Option.some.injEq, Prod.mk.injEq] at hst
    obtain ⟨rfl, rfl⟩ := hst
    have hin : (s.point i).inside = true := by rw [hpt]; rfl
    have hk := h.held i ((h.owner i).2 hin)
    rw [hpt] at hk
    exact h.move_inside hin rfl hk
  | unlock =>
    simp only [Side.advance, hpt, Option.some.injEq, Prod.mk.injEq] at hst
    obtain ⟨rfl, rfl⟩ := hst
    exact h.leave hpt
  | post =>
    simp only [Side.advance, hpt, Option.some.injEq, Prod.mk.injEq] at hst
    obtain ⟨rfl, rfl⟩ := hst
    exact h.move_outside (by rw [hpt]; rfl) rfl

/-- Entering a call keeps the side's invariant. -/
theorem Side.Ok.call (h : s.Ok cap n) {a : A} (hst : s.call i a = some s') : s'.Ok cap n := by
  cases hpt : s.point i <;> simp only [Side.call, hpt, Option.some.injEq, reduceCtorEq] at hst
  subst hst
  exact h.move_outside (by rw [hpt]; rfl) rfl

/-- A statement moves the point of its thread alone, and the points before and after it account for
    the permits it takes and gives and the slot it accesses. -/
theorem Side.advance_point (hst : s.advance cap i = some (s', e)) :
    ∃ pt, s'.point = Function.update s.point i pt ∧
      pt.early.toNat + e.accesses = (s.point i).early.toNat + e.waits ∧
      pt.late.toNat + e.posts = (s.point i).late.toNat + e.accesses := by
  cases hpt : s.point i with
  | idle => simp [Side.advance, hpt] at hst
  | lock a =>
    cases hm : s.mtx with
    | some k => simp [Side.advance, hpt, hm] at hst
    | none =>
      simp only [Side.advance, hpt, hm, Option.some.injEq, Prod.mk.injEq] at hst
      obtain ⟨rfl, rfl⟩ := hst
      exact ⟨.access a, rfl, rfl, rfl⟩
  | wait a | access a | increment | wrap | unlock | post =>
    simp only [Side.advance, hpt, Option.some.injEq, Prod.mk.injEq] at hst
    obtain ⟨rfl, rfl⟩ := hst
    exact ⟨_, rfl, rfl, rfl⟩

/-- An access is made by a thread at its access, with the argument it came with. -/
theorem Side.point_of_access {a : A} (hst : s.advance cap i = some (s', .access a)) :
    s.point i = .access a := by
  cases hpt : s.point i with
  | access b =>
    simp only [Side.advance, hpt, Option.some.injEq, Prod.mk.injEq, Effect.access.injEq] at hst
    rw [hst.2]
  | lock b => cases hm : s.mtx <;> simp [Side.advance, hpt, hm] at hst
  | _ => simp [Side.advance, hpt] at hst

/-- Entering a call moves the point of its thread from one uncounted point to another. -/
theorem Side.call_point {a : A} (hst : s.call i a = some s') :
    s.point i = .idle ∧ s'.point = Function.update s.point i (.wait a) := by
  cases hpt : s.point i <;> simp only [Side.call, hpt, Option.some.injEq, reduceCtorEq] at hst
  subst hst
  exact ⟨rfl, rfl⟩

variable [Fintype ι]

/-- The threads between their permit and their access: one more after a wait, one less after an
    access. -/
theorem Side.early_advance (hst : s.advance cap i = some (s', e)) :
    count Point.early s'.point + e.accesses = count Point.early s.point + e.waits := by
  obtain ⟨pt, hp, he, -⟩ := Side.advance_point hst
  have hu := count_update Point.early s.point i pt
  rw [hp]
  omega

/-- The threads between their access and their post: one more after an access, one less after a
    post. -/
theorem Side.late_advance (hst : s.advance cap i = some (s', e)) :
    count Point.late s'.point + e.posts = count Point.late s.point + e.accesses := by
  obtain ⟨pt, hp, -, hl⟩ := Side.advance_point hst
  have hu := count_update Point.late s.point i pt
  rw [hp]
  omega

theorem Side.count_call {a : A} (hst : s.call i a = some s') :
    count Point.early s'.point = count Point.early s.point ∧
      count Point.late s'.point = count Point.late s.point := by
  obtain ⟨hi, hp⟩ := Side.call_point hst
  have he := count_update Point.early s.point i (.wait a)
  have hl := count_update Point.late s.point i (.wait a)
  rw [hi] at he hl
  rw [hp]
  exact ⟨by simpa [Point.early] using he, by simpa [Point.late] using hl⟩

end Side

/-! ## The queue -/

theorem semWait_eq_some {n m : Nat} (h : semWait n = some m) : m + 1 = n := by
  cases n with
  | zero => cases h
  | succ k => exact congrArg (· + 1) (Option.some.inj h).symm

section Queue

variable {T P C : Type} [Fintype P] [Fintype C]

/-- The queue `q` stands for the FIFO history `f`: both sides are well formed, the permits add up,
    and the ring holds the items of `f` from the first position not loaded yet. -/
structure RingQueue.Refines (q : RingQueue T P C) (f : Fifo T) : Prop where
  cap_pos : 0 < q.cap
  length : q.ringQueue.length = q.cap
  prod : q.p.Ok q.cap q.stored.length
  cons : q.c.Ok q.cap q.loaded.length
  blank : q.blankSem + count Point.early q.p.point + q.stored.length + count Point.late q.c.point =
    q.cap + q.loaded.length
  data : q.dataSem + count Point.early q.c.point + q.loaded.length + count Point.late q.p.point =
    q.stored.length
  pushed : f.pushed = q.stored
  popped : f.popped = q.loaded
  waiting : q.stored.length = q.loaded.length + f.items.length
  holds : Ring.Holds q.cap q.ringQueue q.loaded.length f.items
  unread : ∀ k, q.unread k = true ↔
    ∃ n, q.loaded.length ≤ n ∧ n < q.stored.length ∧ n % q.cap = k

variable {q q' : RingQueue T P C} {f : Fifo T}

/-- A producer at its access has a free slot. -/
theorem RingQueue.Refines.free_slot (h : q.Refines f) {i : P} {v : T}
    (hi : q.p.point i = .access v) : f.items.length < q.cap := by
  have hpos : 0 < count Point.early q.p.point := count_pos (i := i) (by rw [hi]; rfl)
  have hb := h.blank
  have hw := h.waiting
  omega

/-- A consumer at its access has an unread value. -/
theorem RingQueue.Refines.unread_value (h : q.Refines f) {j : C}
    (hj : q.c.point j = .access ()) : 0 < f.items.length := by
  have hpos : 0 < count Point.early q.c.point := count_pos (i := j) (by rw [hj]; rfl)
  have hd := h.data
  have hw := h.waiting
  omega

theorem RingQueue.new_refines [Inhabited T] {cap : Nat} (hcap : 1 ≤ cap) :
    (RingQueue.new cap : RingQueue T P C).Refines Fifo.empty where
  cap_pos := hcap
  length := by simp [RingQueue.new]
  prod := ⟨owns_none fun _ => rfl, fun _ => by simp [RingQueue.new],
    fun i hi => by simp [RingQueue.new] at hi⟩
  cons := ⟨owns_none fun _ => rfl, fun _ => by simp [RingQueue.new],
    fun i hi => by simp [RingQueue.new] at hi⟩
  blank := by
    rw [show count Point.early (RingQueue.new cap : RingQueue T P C).p.point = 0 from
        count_eq_zero fun _ => rfl,
      show count Point.late (RingQueue.new cap : RingQueue T P C).c.point = 0 from
        count_eq_zero fun _ => rfl]
    rfl
  data := by
    rw [show count Point.early (RingQueue.new cap : RingQueue T P C).c.point = 0 from
        count_eq_zero fun _ => rfl,
      show count Point.late (RingQueue.new cap : RingQueue T P C).p.point = 0 from
        count_eq_zero fun _ => rfl]
    rfl
  pushed := rfl
  popped := rfl
  waiting := rfl
  holds := Ring.holds_nil _
  unread := fun k => by simp [RingQueue.new]

section Push

variable [DecidableEq P]

theorem RingQueue.Refines.push_other (h : q.Refines f) {i : P} {p : Side P T} {e : Effect T}
    (hadv : q.p.advance q.cap i = some (p, e)) (he : e.accesses = 0) {nb nd : Nat}
    (hb : nb + e.waits = q.blankSem) (hd : nd = q.dataSem + e.posts) :
    ({ q with p := p, blankSem := nb, dataSem := nd } : RingQueue T P C).Refines f := by
  have hearly := Side.early_advance hadv
  have hlate := Side.late_advance hadv
  have hok := h.prod.advance hadv
  have hblank := h.blank
  have hdata := h.data
  rw [he] at hok hearly hlate
  exact { h with
    prod := hok
    blank := by simp only; omega
    data := by simp only; omega }

/-- The store of `Push` appends its value to the history. -/
theorem RingQueue.Refines.store (h : q.Refines f) {i : P} {p : Side P T} {v : T}
    (hadv : q.p.advance q.cap i = some (p, .access v)) :
    ({ q with
        p := p
        ringQueue := q.ringQueue.set q.p.step v
        stored := q.stored ++ [v]
        unread := Function.update q.unread q.p.step true } : RingQueue T P C).Refines
      { f with pushed := f.pushed ++ [v], items := f.items ++ [v] } := by
  have hearly := Side.early_advance hadv
  have hlate := Side.late_advance hadv
  have hi := Side.point_of_access hadv
  have hfree := h.free_slot hi
  have hidx : q.p.step = q.stored.length % q.cap := h.prod.index_of_access hi
  have hwait := h.waiting
  have hblank := h.blank
  have hdata := h.data
  simp only [Effect.accesses, Effect.waits, Effect.posts] at hearly hlate
  refine
    { cap_pos := h.cap_pos
      length := by simp [h.length]
      prod := by simpa [Effect.accesses] using h.prod.advance hadv
      cons := h.cons
      blank := by simp; omega
      data := by simp; omega
      pushed := by simp [h.pushed]
      popped := h.popped
      waiting := by simp; omega
      holds := ?_
      unread := ?_ }
  · have hs := h.holds.store (v := v) hfree h.length
    rwa [← hwait, ← hidx] at hs
  · have hu : Ring.Unread q.cap q.loaded.length q.stored.length q.unread := h.unread
    have hu' := hu.store (by omega)
    have hlen : (q.stored ++ [v]).length = q.stored.length + 1 := List.length_append
    rw [← hidx, ← hlen] at hu'
    exact hu'

/-- A statement of `Push` is matched by at most one operation of the history. -/
theorem RingQueue.Refines.push (h : q.Refines f) {i : P} (hst : q.push i = some q') :
    ∃ bs f', Run (Lib.Step Fifo.step) f bs f' ∧ q'.Refines f' := by
  cases hadv : q.p.advance q.cap i with
  | none => simp [RingQueue.push, hadv] at hst
  | some pe =>
    obtain ⟨p, e⟩ := pe
    cases e with
    | none =>
      simp only [RingQueue.push, hadv, Option.some.injEq] at hst
      subst hst
      exact ⟨[], f, Run.nil, h.push_other hadv rfl rfl rfl⟩
    | wait =>
      simp only [RingQueue.push, hadv, Option.map_eq_some_iff] at hst
      obtain ⟨n, hn, rfl⟩ := hst
      exact ⟨[], f, Run.nil, h.push_other hadv rfl (semWait_eq_some hn) rfl⟩
    | access v =>
      simp only [RingQueue.push, hadv, Option.some.injEq] at hst
      subst hst
      exact ⟨[.push v], _, Run.single rfl, h.store hadv⟩
    | post =>
      simp only [RingQueue.push, hadv, Option.some.injEq] at hst
      subst hst
      exact ⟨[], f, Run.nil, h.push_other hadv rfl rfl rfl⟩

end Push

section Pop

variable [DecidableEq C]

theorem RingQueue.Refines.pop_other (h : q.Refines f) {j : C} {c : Side C Unit} {e : Effect Unit}
    (hadv : q.c.advance q.cap j = some (c, e)) (he : e.accesses = 0) {nb nd : Nat}
    (hd : nd + e.waits = q.dataSem) (hb : nb = q.blankSem + e.posts) :
    ({ q with c := c, dataSem := nd, blankSem := nb } : RingQueue T P C).Refines f := by
  have hearly := Side.early_advance hadv
  have hlate := Side.late_advance hadv
  have hok := h.cons.advance hadv
  have hblank := h.blank
  have hdata := h.data
  rw [he] at hok hearly hlate
  exact { h with
    cons := hok
    blank := by simp only; omega
    data := by simp only; omega }

omit [DecidableEq C] in
/-- The load of `Pop` finds the front of the history in its slot. -/
theorem RingQueue.Refines.load_front (h : q.Refines f) {j : C} {w : T}
    (hj : q.c.point j = .access ()) (hw : q.ringQueue[q.c.step]? = some w) :
    ∃ rest, f.items = w :: rest ∧
      Ring.Holds q.cap q.ringQueue (q.loaded.length + 1) rest := by
  have hpos := h.unread_value hj
  have hidx : q.c.step = q.loaded.length % q.cap := h.cons.index_of_access hj
  have hholds := h.holds
  cases hf : f.items with
  | nil => simp [hf] at hpos
  | cons v rest =>
    rw [hf] at hholds
    obtain ⟨hv, hrest⟩ := hholds.load
    rw [← hidx, hw] at hv
    rw [Option.some.inj hv]
    exact ⟨rest, rfl, hrest⟩

/-- The load of `Pop` takes the front of the history. -/
theorem RingQueue.Refines.load (h : q.Refines f) {j : C} {c : Side C Unit} {w : T} {rest : List T}
    (hadv : q.c.advance q.cap j = some (c, .access ())) (hf : f.items = w :: rest)
    (hrest : Ring.Holds q.cap q.ringQueue (q.loaded.length + 1) rest) :
    ({ q with
        c := c
        loaded := q.loaded ++ [w]
        unread := Function.update q.unread q.c.step false } : RingQueue T P C).Refines
      { f with popped := f.popped ++ [w], items := rest } := by
  have hearly := Side.early_advance hadv
  have hlate := Side.late_advance hadv
  have hj := Side.point_of_access hadv
  have hidx : q.c.step = q.loaded.length % q.cap := h.cons.index_of_access hj
  have hwait := h.waiting
  have hblank := h.blank
  have hdata := h.data
  rw [hf, List.length_cons] at hwait
  simp only [Effect.accesses, Effect.waits, Effect.posts] at hearly hlate
  refine
    { cap_pos := h.cap_pos
      length := h.length
      prod := h.prod
      cons := by simpa [Effect.accesses] using h.cons.advance hadv
      blank := by simp; omega
      data := by simp; omega
      pushed := h.pushed
      popped := by simp [h.popped]
      waiting := by simp; omega
      holds := by simpa using hrest
      unread := ?_ }
  have hu : Ring.Unread q.cap q.loaded.length q.stored.length q.unread := h.unread
  have hu' := hu.load (by omega)
  have hlen : (q.loaded ++ [w]).length = q.loaded.length + 1 := List.length_append
  rw [← hidx, ← hlen] at hu'
  exact hu'

/-- A statement of `Pop` is matched by at most one operation of the history. -/
theorem RingQueue.Refines.pop (h : q.Refines f) {j : C} (hst : q.pop j = some q') :
    ∃ bs f', Run (Lib.Step Fifo.step) f bs f' ∧ q'.Refines f' := by
  cases hadv : q.c.advance q.cap j with
  | none => simp [RingQueue.pop, hadv] at hst
  | some ce =>
    obtain ⟨c, e⟩ := ce
    cases e with
    | none =>
      simp only [RingQueue.pop, hadv, Option.some.injEq] at hst
      subst hst
      exact ⟨[], f, Run.nil, h.pop_other hadv rfl rfl rfl⟩
    | wait =>
      simp only [RingQueue.pop, hadv, Option.map_eq_some_iff] at hst
      obtain ⟨n, hn, rfl⟩ := hst
      exact ⟨[], f, Run.nil, h.pop_other hadv rfl (semWait_eq_some hn) rfl⟩
    | access a =>
      cases hw : q.ringQueue[q.c.step]? with
      | none => simp [RingQueue.pop, hadv, hw] at hst
      | some w =>
        simp only [RingQueue.pop, hadv, hw, Option.some.injEq] at hst
        subst hst
        obtain ⟨rest, hf, hrest⟩ := h.load_front (Side.point_of_access hadv) hw
        exact ⟨[.pop], _, Run.single (by simp [Lib.Step, Fifo.step, hf]), h.load hadv hf hrest⟩
    | post =>
      simp only [RingQueue.pop, hadv, Option.some.injEq] at hst
      subst hst
      exact ⟨[], f, Run.nil, h.pop_other hadv rfl rfl rfl⟩

end Pop

variable [DecidableEq P] [DecidableEq C]

/-- **One step of the queue, any thread at any point, is simulated by the FIFO history.** -/
theorem RingQueue.Refines.step (h : q.Refines f) {a : RingAct T P C}
    (hst : Lib.Step RingQueue.step q a q') :
    ∃ bs f', Run (Lib.Step Fifo.step) f bs f' ∧ q'.Refines f' := by
  cases a with
  | callPush i v =>
    simp only [Lib.Step, RingQueue.step, Option.map_eq_some_iff] at hst
    obtain ⟨p, hp, rfl⟩ := hst
    obtain ⟨he, hl⟩ := Side.count_call hp
    exact ⟨[], f, Run.nil, { h with
      prod := h.prod.call hp
      blank := by simp only [he]; exact h.blank
      data := by simp only [hl]; exact h.data }⟩
  | push i => exact h.push hst
  | callPop j =>
    simp only [Lib.Step, RingQueue.step, Option.map_eq_some_iff] at hst
    obtain ⟨c, hc, rfl⟩ := hst
    obtain ⟨he, hl⟩ := Side.count_call hc
    exact ⟨[], f, Run.nil, { h with
      cons := h.cons.call hc
      blank := by simp only [hl]; exact h.blank
      data := by simp only [he]; exact h.data }⟩
  | pop j => exact h.pop hst

/-- Every run of the queue is simulated by a run of the FIFO history. -/
theorem RingQueue.refines_of_run [Inhabited T] {cap : Nat} (hcap : 1 ≤ cap)
    {as : List (RingAct T P C)} (h : Run (Lib.Step RingQueue.step) (RingQueue.new cap) as q) :
    ∃ bs f, Run (Lib.Step Fifo.step) Fifo.empty bs f ∧ q.Refines f :=
  h.simulate (S := RingQueue.Refines) (fun _ _ _ _ hS hst => hS.step hst)
    (RingQueue.new_refines hcap)

/-- **First in, first out, with no overrun, no stale read and no shared slot.** At the end of every
    run, the values loaded are a prefix of the values stored; a producer about to store finds its
    slot read, a consumer about to load finds its slot unread, and the two are never at one slot. -/
theorem ringQueue_fifo [Inhabited T] (cap : Nat) (hcap : 1 ≤ cap) (as : List (RingAct T P C))
    (q : RingQueue T P C) (h : Run (Lib.Step RingQueue.step) (RingQueue.new cap) as q) :
    q.loaded <+: q.stored ∧
    (∀ i v, q.p.point i = .access v → q.unread q.p.step = false) ∧
    (∀ j, q.c.point j = .access () → q.unread q.c.step = true) ∧
    (∀ i v j, q.p.point i = .access v → q.c.point j = .access () → q.p.step ≠ q.c.step) := by
  obtain ⟨bs, f, hrun, href⟩ := RingQueue.refines_of_run hcap h
  have hwait := href.waiting
  have hstore : ∀ i v, q.p.point i = .access v → q.p.step = q.stored.length % q.cap :=
    fun i v hi => href.prod.index_of_access hi
  have hload : ∀ j, q.c.point j = .access () → q.c.step = q.loaded.length % q.cap :=
    fun j hj => href.cons.index_of_access hj
  have hunread : Ring.Unread q.cap q.loaded.length q.stored.length q.unread := href.unread
  refine ⟨?_, ?_, ?_, ?_⟩
  · rw [← href.popped, ← href.pushed]
    exact Fifo.prefix_of_run hrun
  · intro i v hi
    have hfree := href.free_slot hi
    rw [hstore i v hi]
    exact hunread.free (by omega)
  · intro j hj
    have hpos := href.unread_value hj
    rw [hload j hj]
    exact hunread.waits (by omega)
  · intro i v j hi hj
    have hfree := href.free_slot hi
    have hpos := href.unread_value hj
    rw [hstore i v hi, hload j hj]
    exact (Ring.slot_ne (by omega) (by omega)).symm

/-- Two producers on two slots: the second one posts before the first, and consumer `false` takes
    the first one's value with the permit. Then a producer is about to reuse the slot, and consumer
    `true` about to read the other one. -/
def latePost : List (RingAct Nat Bool Bool) := List.flatten
  [[.callPush false 7, .push false, .callPush true 8, .push true],
    List.replicate 5 (.push false), List.replicate 6 (.push true),
    .callPop false :: List.replicate 3 (.pop false),
    [.callPop true, .push false, .pop true], List.replicate 4 (.pop false),
    [.callPush true 9, .push true, .push true, .pop true]]

theorem ringQueue_fifo_late_post :
    ∃ q, Run (Lib.Step RingQueue.step) (RingQueue.new 2 : RingQueue Nat Bool Bool) latePost q ∧
      q.loaded = [7] ∧ q.stored = [7, 8] ∧ q.loaded <+: q.stored ∧
      q.p.point true = .access 9 ∧ q.unread q.p.step = false ∧
      q.c.point true = .access () ∧ q.unread q.c.step = true ∧ q.p.step ≠ q.c.step := by
  obtain ⟨q, hrun, hloaded, hstored, hp, hc⟩ := exec_exists RingQueue.step
    (RingQueue.new 2 : RingQueue Nat Bool Bool) latePost
    (p := fun q => q.loaded = [7] ∧ q.stored = [7, 8] ∧ q.p.point true = .access 9 ∧
      q.c.point true = .access ()) (by decide +kernel)
  obtain ⟨hfifo, hfree, hwaits, hne⟩ := ringQueue_fifo 2 (by decide) _ q hrun
  exact ⟨q, hrun, hloaded, hstored, hfifo, hp, hfree _ _ hp, hc, hwaits _ hc, hne _ _ _ hp hc⟩

end Queue

end SystemCallLearn.Pthread
