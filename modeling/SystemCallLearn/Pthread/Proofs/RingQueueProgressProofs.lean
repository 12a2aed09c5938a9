import SystemCallLearn.Pthread.Proofs.RingQueueProofs

/-!
# The ring queue never deadlocks

The permits are conserved: in a semaphore or in the hand of a thread there are always `cap` of them.
A thread that cannot run its next statement waits for a permit or for the mutex of its side; the
owner of the mutex can always run, and with every thread waiting for a permit all of them are in the
two semaphores, one of which lets its side go on.
-/

namespace SystemCallLearn.Pthread

open SystemCallLearn.Lib

/-- The thread holds a permit: past its `sem_wait` and before its `sem_post`. -/
def Point.holds {A : Type} : Point A → Bool
  | .idle | .wait _ => false
  | .lock _ | .access _ | .increment | .wrap | .unlock | .post => true

theorem Point.holds_toNat {A : Type} (pt : Point A) :
    pt.holds.toNat = pt.early.toNat + pt.late.toNat := by
  cases pt <;> rfl

section Progress

variable {T P C : Type} [Fintype P] [Fintype C] {q q' : RingQueue T P C} {f : Fifo T}

/-- **Conservation of permits.** -/
theorem RingQueue.Refines.permits (h : q.Refines f) :
    q.blankSem + q.dataSem + (count Point.holds q.p.point + count Point.holds q.c.point) =
      q.cap := by
  have hp := count_add Point.holds_toNat q.p.point
  have hc := count_add Point.holds_toNat q.c.point
  have hb := h.blank
  have hd := h.data
  omega

/-- A side of which every thread waits for a permit, or for the mutex while it is taken, has no
    thread at its mutex: the owner is at neither of the two. -/
theorem Side.Ok.all_wait {ι A : Type} {cap n : Nat} {s : Side ι A} (h : s.Ok cap n)
    (hall : ∀ i, (∃ a, s.point i = .wait a) ∨ ∃ a k, s.point i = .lock a ∧ s.mtx = some k)
    (i : ι) : ∃ a, s.point i = .wait a := by
  rcases hall i with hi | ⟨a, k, hi, hk⟩
  · exact hi
  · have hin := (h.owner k).1 hk
    rcases hall k with ⟨b, hb⟩ | ⟨b, l, hb, -⟩
    · rw [hb] at hin
      cases hin
    · rw [hb] at hin
      cases hin

theorem Side.count_holds_of_wait {ι A : Type} [Fintype ι] {s : Side ι A}
    (h : ∀ i, ∃ a, s.point i = .wait a) : count Point.holds s.point = 0 := by
  apply count_eq_zero
  intro i
  obtain ⟨a, ha⟩ := h i
  rw [ha]
  rfl

variable [DecidableEq P] [DecidableEq C]

omit [Fintype P] [Fintype C] [DecidableEq C] in
/-- What a producer waits for that cannot run its next statement. -/
theorem RingQueue.push_blocked {i : P} (h : q.push i = none) :
    q.p.point i = .idle ∨ (∃ v, q.p.point i = .wait v ∧ q.blankSem = 0) ∨
      ∃ v k, q.p.point i = .lock v ∧ q.p.mtx = some k := by
  cases hi : q.p.point i with
  | idle => exact .inl rfl
  | wait v =>
    cases hb : q.blankSem with
    | zero => exact .inr (.inl ⟨v, rfl, rfl⟩)
    | succ n => simp [RingQueue.push, Side.advance, hi, hb, semWait] at h
  | lock v =>
    cases hm : q.p.mtx with
    | none => simp [RingQueue.push, Side.advance, hi, hm] at h
    | some k => exact .inr (.inr ⟨v, k, rfl, rfl⟩)
  | access v | increment | wrap | unlock | post => simp [RingQueue.push, Side.advance, hi] at h

omit [DecidableEq P] in
/-- What a consumer waits for that cannot run its next statement; its slot is in the vector. -/
theorem RingQueue.Refines.pop_blocked (href : q.Refines f) {j : C} (h : q.pop j = none) :
    q.c.point j = .idle ∨ (∃ u, q.c.point j = .wait u ∧ q.dataSem = 0) ∨
      ∃ u k, q.c.point j = .lock u ∧ q.c.mtx = some k := by
  cases hj : q.c.point j with
  | idle => exact .inl rfl
  | wait u =>
    cases hd : q.dataSem with
    | zero => exact .inr (.inl ⟨u, rfl, rfl⟩)
    | succ n => simp [RingQueue.pop, Side.advance, hj, hd, semWait] at h
  | lock u =>
    cases hm : q.c.mtx with
    | none => simp [RingQueue.pop, Side.advance, hj, hm] at h
    | some k => exact .inr (.inr ⟨u, k, rfl, rfl⟩)
  | access u =>
    have hidx : q.c.step = q.loaded.length % q.cap := href.cons.index_of_access hj
    have hlt : q.c.step < q.ringQueue.length := by
      rw [href.length, hidx]
      exact Nat.mod_lt _ href.cap_pos
    simp [RingQueue.pop, Side.advance, hj, List.getElem?_eq_getElem hlt] at h
  | increment | wrap | unlock | post => simp [RingQueue.pop, Side.advance, hj] at h

omit [Fintype P] [Fintype C] in
theorem RingQueue.step_cap {a : RingAct T P C} (h : Lib.Step RingQueue.step q a q') :
    q'.cap = q.cap := by
  cases a with
  | callPush i v =>
    simp only [Lib.Step, RingQueue.step, Option.map_eq_some_iff] at h
    obtain ⟨p, -, rfl⟩ := h
    rfl
  | callPop j =>
    simp only [Lib.Step, RingQueue.step, Option.map_eq_some_iff] at h
    obtain ⟨c, -, rfl⟩ := h
    rfl
  | push i =>
    simp only [Lib.Step, RingQueue.step, RingQueue.push] at h
    split at h
    · cases h
    · exact Option.some.inj h ▸ rfl
    · obtain ⟨n, -, rfl⟩ := Option.map_eq_some_iff.1 h
      rfl
    · exact Option.some.inj h ▸ rfl
    · exact Option.some.inj h ▸ rfl
  | pop j =>
    simp only [Lib.Step, RingQueue.step, RingQueue.pop] at h
    split at h
    · cases h
    · exact Option.some.inj h ▸ rfl
    · obtain ⟨n, -, rfl⟩ := Option.map_eq_some_iff.1 h
      rfl
    · split at h
      · cases h
      · exact Option.some.inj h ▸ rfl
    · exact Option.some.inj h ▸ rfl

/-- A state in which nobody can move has every thread inside a call and waiting. -/
theorem RingQueue.Refines.exists_step [Inhabited T] [Nonempty P] [Nonempty C] (h : q.Refines f) :
    ∃ a q', Lib.Step RingQueue.step q a q' := by
  by_contra hstuck
  have hnone : ∀ a, q.step a = none := fun a => Option.eq_none_iff_forall_ne_some.2
    fun q' hq' => hstuck ⟨a, q', hq'⟩
  have hpidle : ∀ i, q.p.point i ≠ .idle := fun i hi => by
    have hcall := hnone (.callPush i default)
    simp [RingQueue.step, Side.call, hi] at hcall
  have hcidle : ∀ j, q.c.point j ≠ .idle := fun j hj => by
    have hcall := hnone (.callPop j)
    simp [RingQueue.step, Side.call, hj] at hcall
  have hp : ∀ i, ∃ v, q.p.point i = .wait v := h.prod.all_wait fun i =>
    (RingQueue.push_blocked (hnone (.push i))).elim (fun hi => absurd hi (hpidle i))
      (Or.imp_left fun hi => ⟨hi.choose, hi.choose_spec.1⟩)
  have hc : ∀ j, ∃ u, q.c.point j = .wait u := h.cons.all_wait fun j =>
    (h.pop_blocked (hnone (.pop j))).elim (fun hj => absurd hj (hcidle j))
      (Or.imp_left fun hj => ⟨hj.choose, hj.choose_spec.1⟩)
  -- every permit is in a semaphore, and neither semaphore has one
  have hpermits := h.permits
  rw [Side.count_holds_of_wait hp, Side.count_holds_of_wait hc] at hpermits
  have hblank : q.blankSem = 0 := by
    obtain ⟨i⟩ := ‹Nonempty P›
    obtain ⟨v, hv⟩ := hp i
    rcases RingQueue.push_blocked (hnone (.push i)) with hi | ⟨-, -, hb⟩ | ⟨w, k, hi, -⟩
    · exact absurd hi (hpidle i)
    · exact hb
    · rw [hv] at hi
      cases hi
  have hdata : q.dataSem = 0 := by
    obtain ⟨j⟩ := ‹Nonempty C›
    obtain ⟨u, hu⟩ := hc j
    rcases h.pop_blocked (hnone (.pop j)) with hj | ⟨-, -, hd⟩ | ⟨w, k, hj, -⟩
    · exact absurd hj (hcidle j)
    · exact hd
    · rw [hu] at hj
      cases hj
  have hcap := h.cap_pos
  omega

/-- **No permit is lost and nobody waits forever for another.** In every state of every run the
    permits in the two semaphores and in the hands of threads are `cap` in number, and with at least
    one producer and one consumer some thread can take a step. -/
theorem ringQueue_no_deadlock [Inhabited T] [Nonempty P] [Nonempty C] (cap : Nat) (hcap : 1 ≤ cap)
    (as : List (RingAct T P C)) (q : RingQueue T P C)
    (h : Run (Lib.Step RingQueue.step) (RingQueue.new cap) as q) :
    q.blankSem + q.dataSem + (count Point.holds q.p.point + count Point.holds q.c.point) = cap ∧
    ∃ a q', Lib.Step RingQueue.step q a q' := by
  obtain ⟨bs, f, -, href⟩ := RingQueue.refines_of_run hcap h
  have hq : q.cap = cap := h.invariant (I := fun q => q.cap = cap)
    (fun _ _ _ hI hst => (RingQueue.step_cap hst).trans hI) rfl
  exact ⟨hq ▸ href.permits, href.exists_step⟩

/-- Two producers and a consumer at a queue of one slot: one producer waits for a permit that the
    other has in its hand, and the consumer for a value that is not there yet. -/
theorem ringQueue_no_deadlock_waiting :
    ∃ q, Run (Lib.Step RingQueue.step) (RingQueue.new 1 : RingQueue Nat (Fin 2) Unit)
        [.callPush 0 7, .callPush 1 8, .callPop (), .push 0] q ∧
      q.push 1 = none ∧ q.pop () = none ∧
      q.blankSem + q.dataSem + (count Point.holds q.p.point + count Point.holds q.c.point) = 1 ∧
      ∃ a q', Lib.Step RingQueue.step q a q' := by
  obtain ⟨q, hrun, hpush, hpop⟩ := exec_exists RingQueue.step
    (RingQueue.new 1 : RingQueue Nat (Fin 2) Unit)
    [.callPush 0 7, .callPush 1 8, .callPop (), .push 0]
    (p := fun q => (q.push 1).isNone = true ∧ (q.pop ()).isNone = true) (by decide)
  obtain ⟨hpermits, hstep⟩ := ringQueue_no_deadlock 1 le_rfl _ q hrun
  exact ⟨q, hrun, Option.isNone_iff_eq_none.1 hpush, Option.isNone_iff_eq_none.1 hpop, hpermits,
    hstep⟩

end Progress

end SystemCallLearn.Pthread
