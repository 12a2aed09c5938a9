import SystemCallLearn.Pthread.SemRingQueue
import SystemCallLearn.Pthread.Proofs.RingQueueProofs

/-!
# The semaphore ring queue refines a FIFO queue

With one thread on each side no mutex is needed: the index of a side is read and written by its own
thread only, and what it is depends on the point of that thread (`Point.IndexOk`). The two
semaphores account for every slot as in the queue with mutexes, so that a thread at its access has a
free slot, or an unread value, even while the other thread has posted and not advanced its index.
-/

namespace SystemCallLearn.Pthread.SemRingQueue

open SystemCallLearn.Lib

/-! ## One thread -/

/-- The thread has taken its permit and not accessed its slot yet. -/
def Point.early {A : Type} : Point A → Nat
  | .access _ => 1
  | _ => 0

/-- The thread has accessed its slot and not posted yet. -/
def Point.late {A : Type} : Point A → Nat
  | .post => 1
  | _ => 0

/-- What the index `k` is after `n` accesses while the thread is at the given point: the slot of the
    next access, but for the part of the advance that is still to be done. -/
def Point.IndexOk {A : Type} (cap n k : Nat) : Point A → Prop
  | .idle | .wait _ | .access _ => k = n % cap
  | .post | .increment => 0 < cap ∧ (k + 1) % cap = n % cap
  | .wrap => 0 < cap ∧ k % cap = n % cap
  | .undefined => False

/-- The invariant of a thread after `n` accesses. -/
def Thread.Ok {A : Type} (cap n : Nat) (s : Thread A) : Prop := s.point.IndexOk cap n s.step

section Thread

variable {A : Type} {cap n : Nat} {s s' : Thread A} {e : Effect A}

/-- **A statement keeps its thread's invariant**, counting the access it may make; an access needs a
    slot. -/
theorem Thread.Ok.advance (h : s.Ok cap n) (hcap : s.point.early ≤ cap)
    (hst : s.advance cap = some (s', e)) : s'.Ok cap (n + e.accesses) := by
  unfold Thread.Ok at h ⊢
  cases hpt : s.point with
  | idle | undefined => simp [Thread.advance, hpt] at hst
  | wait a =>
    simp only [Thread.advance, hpt, Option.some.injEq, Prod.mk.injEq] at hst
    obtain ⟨rfl, rfl⟩ := hst
    rwa [hpt] at h
  | access a =>
    simp only [Thread.advance, hpt, Option.some.injEq, Prod.mk.injEq] at hst
    obtain ⟨rfl, rfl⟩ := hst
    rw [hpt] at h hcap
    have hk : s.step = n % cap := h
    show 0 < cap ∧ (s.step + 1) % cap = (n + 1) % cap
    exact ⟨hcap, by rw [hk, Nat.mod_add_mod]⟩
  | post =>
    simp only [Thread.advance, hpt, Option.some.injEq, Prod.mk.injEq] at hst
    obtain ⟨rfl, rfl⟩ := hst
    rwa [hpt] at h
  | increment =>
    simp only [Thread.advance, hpt, Option.some.injEq, Prod.mk.injEq] at hst
    obtain ⟨rfl, rfl⟩ := hst
    rwa [hpt] at h
  | wrap =>
    rw [hpt] at h
    obtain ⟨hpos, hk⟩ := h
    simp only [Thread.advance, hpt, if_neg (Nat.ne_of_gt hpos), Option.some.injEq,
      Prod.mk.injEq] at hst
    obtain ⟨rfl, rfl⟩ := hst
    exact hk

/-- The points before and after a statement account for the permits it takes and gives and the slot
    it accesses. -/
theorem Thread.advance_point (h : s.Ok cap n) (hst : s.advance cap = some (s', e)) :
    s'.point.early + e.accesses = s.point.early + e.waits ∧
      s'.point.late + e.posts = s.point.late + e.accesses := by
  cases hpt : s.point with
  | idle | undefined => simp [Thread.advance, hpt] at hst
  | wait a | access a | post | increment =>
    simp only [Thread.advance, hpt, Option.some.injEq, Prod.mk.injEq] at hst
    obtain ⟨rfl, rfl⟩ := hst
    exact ⟨rfl, rfl⟩
  | wrap =>
    rw [Thread.Ok, hpt] at h
    simp only [Thread.advance, hpt, if_neg (Nat.ne_of_gt h.1), Option.some.injEq,
      Prod.mk.injEq] at hst
    obtain ⟨rfl, rfl⟩ := hst
    exact ⟨rfl, rfl⟩

theorem Thread.point_of_access {a : A} (hst : s.advance cap = some (s', .access a)) :
    s.point = .access a := by
  cases hpt : s.point with
  | access b =>
    simp only [Thread.advance, hpt, Option.some.injEq, Prod.mk.injEq, Effect.access.injEq] at hst
    rw [hst.2]
  | wrap =>
    simp only [Thread.advance, hpt] at hst
    split_ifs at hst <;> simp at hst
  | _ => simp [Thread.advance, hpt] at hst

theorem Thread.call_eq {a : A} (hst : s.call a = some s') :
    s.point = .idle ∧ s' = { s with point := .wait a } := by
  cases hpt : s.point <;> simp only [Thread.call, hpt, Option.some.injEq, reduceCtorEq] at hst
  exact ⟨rfl, hst.symm⟩

end Thread

/-! ## The queue -/

section Queue

variable {T : Type}

/-- The queue `q` stands for the FIFO history `f`: the indices fit the points of their threads, the
    permits add up, and the ring holds the items of `f` from the first position not loaded yet. -/
structure Refines (cap : Nat) (q : SemRingQueue T) (f : Fifo T) : Prop where
  cap_eq : q.cap = cap
  length : q.ringQueue.length = q.cap
  prod : q.p.Ok q.cap q.stored.length
  cons : q.c.Ok q.cap q.loaded.length
  blank : q.blankSem + q.p.point.early + q.stored.length + q.c.point.late =
    q.cap + q.loaded.length
  data : q.dataSem + q.c.point.early + q.loaded.length + q.p.point.late = q.stored.length
  pushed : f.pushed = q.stored
  popped : f.popped = q.loaded
  waiting : q.stored.length = q.loaded.length + f.items.length
  holds : Ring.Holds q.cap q.ringQueue q.loaded.length f.items
  unread : Ring.Unread q.cap q.loaded.length q.stored.length q.unread

variable {cap : Nat} {q q' : SemRingQueue T} {f : Fifo T}

/-- The producer at its access has a free slot. -/
theorem Refines.free_slot (h : q.Refines cap f) {v : T} (hp : q.p.point = .access v) :
    q.stored.length < q.loaded.length + q.cap ∧ q.p.step = q.stored.length % q.cap := by
  have hok := h.prod
  have hb := h.blank
  rw [Thread.Ok, hp] at hok
  rw [hp, show (Point.access v).early = 1 from rfl] at hb
  exact ⟨by omega, hok⟩

/-- The consumer at its access has an unread value. -/
theorem Refines.unread_value (h : q.Refines cap f) (hc : q.c.point = .access ()) :
    q.loaded.length < q.stored.length ∧ q.c.step = q.loaded.length % q.cap := by
  have hok := h.cons
  have hd := h.data
  rw [Thread.Ok, hc] at hok
  rw [hc, show (Point.access ()).early = 1 from rfl] at hd
  exact ⟨by omega, hok⟩

/-- At most `cap` values wait, whatever the two threads are doing. -/
theorem Refines.turn (h : q.Refines cap f) :
    q.stored.length + q.p.point.early ≤ q.loaded.length + q.cap ∧
      q.loaded.length + q.c.point.early ≤ q.stored.length := by
  have hb := h.blank
  have hd := h.data
  omega

theorem new_refines [Inhabited T] (cap : Nat) :
    (new cap : SemRingQueue T).Refines cap Fifo.empty where
  cap_eq := rfl
  length := by simp [new]
  prod := (Nat.zero_mod cap).symm
  cons := (Nat.zero_mod cap).symm
  blank := rfl
  data := rfl
  pushed := rfl
  popped := rfl
  waiting := rfl
  holds := Ring.holds_nil _
  unread := Ring.unread_nil

theorem Refines.push_other (h : q.Refines cap f) {p : Thread T} {e : Effect T}
    (hadv : q.p.advance q.cap = some (p, e)) (he : e.accesses = 0) {nb nd : Nat}
    (hb : nb + e.waits = q.blankSem) (hd : nd = q.dataSem + e.posts) :
    ({ q with p := p, blankSem := nb, dataSem := nd } : SemRingQueue T).Refines cap f := by
  obtain ⟨hearly, hlate⟩ := Thread.advance_point h.prod hadv
  have hturn := h.turn
  have hok := h.prod.advance (by omega) hadv
  have hblank := h.blank
  have hdata := h.data
  rw [he] at hok hearly hlate
  exact { h with
    prod := hok
    blank := by simp only; omega
    data := by simp only; omega }

/-- The store of `Push` appends its value to the history. -/
theorem Refines.store (h : q.Refines cap f) {p : Thread T} {v : T}
    (hadv : q.p.advance q.cap = some (p, .access v)) :
    ({ q with
        p := p
        ringQueue := q.ringQueue.set q.p.step v
        stored := q.stored ++ [v]
        unread := Function.update q.unread q.p.step true } : SemRingQueue T).Refines cap
      { f with pushed := f.pushed ++ [v], items := f.items ++ [v] } := by
  obtain ⟨hearly, hlate⟩ := Thread.advance_point h.prod hadv
  have hturn := h.turn
  have hok := h.prod.advance (by omega) hadv
  obtain ⟨hfree, hidx⟩ := h.free_slot (Thread.point_of_access hadv)
  have hwait := h.waiting
  have hblank := h.blank
  have hdata := h.data
  have hlen : (q.stored ++ [v]).length = q.stored.length + 1 := List.length_append
  simp only [Effect.accesses, Effect.waits, Effect.posts] at hearly hlate hok
  refine
    { cap_eq := h.cap_eq
      length := by simp [h.length]
      prod := by rw [hlen]; exact hok
      cons := h.cons
      blank := by rw [hlen]; simp only; omega
      data := by rw [hlen]; simp only; omega
      pushed := by simp [h.pushed]
      popped := h.popped
      waiting := by simp; omega
      holds := ?_
      unread := ?_ }
  · have hs := h.holds.store (v := v) (by omega) h.length
    rwa [← hwait, ← hidx] at hs
  · have hs := h.unread.store (by omega)
    rwa [← hidx, ← hlen] at hs

/-- A statement of `Push` is matched by at most one operation of the history. -/
theorem Refines.push (h : q.Refines cap f) (hst : q.push = some q') :
    ∃ bs f', Run (Lib.Step Fifo.step) f bs f' ∧ q'.Refines cap f' := by
  cases hadv : q.p.advance q.cap with
  | none => simp [SemRingQueue.push, hadv] at hst
  | some pe =>
    obtain ⟨p, e⟩ := pe
    cases e with
    | none =>
      simp only [SemRingQueue.push, hadv, Option.some.injEq] at hst
      subst hst
      exact ⟨[], f, Run.nil, h.push_other hadv rfl rfl rfl⟩
    | wait =>
      simp only [SemRingQueue.push, hadv, Option.map_eq_some_iff] at hst
      obtain ⟨n, hn, rfl⟩ := hst
      exact ⟨[], f, Run.nil, h.push_other hadv rfl (semWait_eq_some hn) rfl⟩
    | access v =>
      obtain ⟨hfree, hidx⟩ := h.free_slot (Thread.point_of_access hadv)
      have hlt : q.p.step < q.ringQueue.length := by
        have hturn := h.turn
        rw [h.length, hidx]
        exact Nat.mod_lt _ (by omega)
      simp only [SemRingQueue.push, hadv, if_pos hlt, Option.some.injEq] at hst
      subst hst
      exact ⟨[.push v], _, Run.single rfl, h.store hadv⟩
    | post =>
      simp only [SemRingQueue.push, hadv, Option.some.injEq] at hst
      subst hst
      exact ⟨[], f, Run.nil, h.push_other hadv rfl rfl rfl⟩

theorem Refines.pop_other (h : q.Refines cap f) {c : Thread Unit} {e : Effect Unit}
    (hadv : q.c.advance q.cap = some (c, e)) (he : e.accesses = 0) {nb nd : Nat}
    (hd : nd + e.waits = q.dataSem) (hb : nb = q.blankSem + e.posts) :
    ({ q with c := c, dataSem := nd, blankSem := nb } : SemRingQueue T).Refines cap f := by
  obtain ⟨hearly, hlate⟩ := Thread.advance_point h.cons hadv
  have hblank := h.blank
  have hturn := h.turn
  have hok := h.cons.advance (by omega) hadv
  have hdata := h.data
  rw [he] at hok hearly hlate
  exact { h with
    cons := hok
    blank := by simp only; omega
    data := by simp only; omega }

/-- The load of `Pop` finds the front of the history in its slot. -/
theorem Refines.load_front (h : q.Refines cap f) (hc : q.c.point = .access ()) :
    ∃ w rest, q.ringQueue[q.c.step]? = some w ∧ f.items = w :: rest ∧
      Ring.Holds q.cap q.ringQueue (q.loaded.length + 1) rest := by
  obtain ⟨hlt, hidx⟩ := h.unread_value hc
  have hwait := h.waiting
  have hholds := h.holds
  cases hf : f.items with
  | nil =>
    rw [hf, List.length_nil] at hwait
    omega
  | cons v rest =>
    rw [hf] at hholds
    obtain ⟨hv, hrest⟩ := hholds.load
    rw [← hidx] at hv
    exact ⟨v, rest, hv, rfl, hrest⟩

/-- The load of `Pop` takes the front of the history. -/
theorem Refines.load (h : q.Refines cap f) {c : Thread Unit} {w : T} {rest : List T}
    (hadv : q.c.advance q.cap = some (c, .access ())) (hf : f.items = w :: rest)
    (hrest : Ring.Holds q.cap q.ringQueue (q.loaded.length + 1) rest) :
    ({ q with
        c := c
        loaded := q.loaded ++ [w]
        unread := Function.update q.unread q.c.step false } : SemRingQueue T).Refines cap
      { f with popped := f.popped ++ [w], items := rest } := by
  obtain ⟨hearly, hlate⟩ := Thread.advance_point h.cons hadv
  have hblank := h.blank
  have hturn := h.turn
  have hok := h.cons.advance (by omega) hadv
  obtain ⟨hlt, hidx⟩ := h.unread_value (Thread.point_of_access hadv)
  have hwait := h.waiting
  have hdata := h.data
  have hlen : (q.loaded ++ [w]).length = q.loaded.length + 1 := List.length_append
  rw [hf, List.length_cons] at hwait
  simp only [Effect.accesses, Effect.waits, Effect.posts] at hearly hlate hok
  refine
    { cap_eq := h.cap_eq
      length := h.length
      prod := h.prod
      cons := by rw [hlen]; exact hok
      blank := by rw [hlen]; simp only; omega
      data := by rw [hlen]; simp only; omega
      pushed := h.pushed
      popped := by simp [h.popped]
      waiting := by rw [hlen]; simp only; omega
      holds := by rw [hlen]; exact hrest
      unread := ?_ }
  have hu := h.unread.load (by omega)
  rwa [← hidx, ← hlen] at hu

/-- A statement of `Pop` is matched by at most one operation of the history. -/
theorem Refines.pop (h : q.Refines cap f) (hst : q.pop = some q') :
    ∃ bs f', Run (Lib.Step Fifo.step) f bs f' ∧ q'.Refines cap f' := by
  cases hadv : q.c.advance q.cap with
  | none => simp [SemRingQueue.pop, hadv] at hst
  | some ce =>
    obtain ⟨c, e⟩ := ce
    cases e with
    | none =>
      simp only [SemRingQueue.pop, hadv, Option.some.injEq] at hst
      subst hst
      exact ⟨[], f, Run.nil, h.pop_other hadv rfl rfl rfl⟩
    | wait =>
      simp only [SemRingQueue.pop, hadv, Option.map_eq_some_iff] at hst
      obtain ⟨n, hn, rfl⟩ := hst
      exact ⟨[], f, Run.nil, h.pop_other hadv rfl (semWait_eq_some hn) rfl⟩
    | access a =>
      obtain ⟨w, rest, hw, hf, hrest⟩ := h.load_front (Thread.point_of_access hadv)
      simp only [SemRingQueue.pop, hadv, hw, Option.some.injEq] at hst
      subst hst
      exact ⟨[.pop], _, Run.single (by simp [Lib.Step, Fifo.step, hf]), h.load hadv hf hrest⟩
    | post =>
      simp only [SemRingQueue.pop, hadv, Option.some.injEq] at hst
      subst hst
      exact ⟨[], f, Run.nil, h.pop_other hadv rfl rfl rfl⟩

/-- **One step of the queue, either thread at any point, is simulated by the FIFO history.** -/
theorem Refines.step (h : q.Refines cap f) {a : Act T} (hst : Lib.Step SemRingQueue.step q a q') :
    ∃ bs f', Run (Lib.Step Fifo.step) f bs f' ∧ q'.Refines cap f' := by
  cases a with
  | callPush v =>
    simp only [Lib.Step, SemRingQueue.step, Option.map_eq_some_iff] at hst
    obtain ⟨p, hp, rfl⟩ := hst
    obtain ⟨hidle, rfl⟩ := Thread.call_eq hp
    have hok := h.prod
    have hblank := h.blank
    have hdata := h.data
    rw [Thread.Ok, hidle] at hok
    rw [hidle] at hblank hdata
    exact ⟨[], f, Run.nil, { h with prod := hok, blank := hblank, data := hdata }⟩
  | push => exact h.push hst
  | callPop =>
    simp only [Lib.Step, SemRingQueue.step, Option.map_eq_some_iff] at hst
    obtain ⟨c, hc, rfl⟩ := hst
    obtain ⟨hidle, rfl⟩ := Thread.call_eq hc
    have hok := h.cons
    have hblank := h.blank
    have hdata := h.data
    rw [Thread.Ok, hidle] at hok
    rw [hidle] at hblank hdata
    exact ⟨[], f, Run.nil, { h with cons := hok, blank := hblank, data := hdata }⟩
  | pop => exact h.pop hst

/-- Every run of the queue is simulated by a run of the FIFO history. -/
theorem refines_of_run [Inhabited T] {as : List (Act T)}
    (h : Run (Lib.Step SemRingQueue.step) (new cap) as q) :
    ∃ bs f, Run (Lib.Step Fifo.step) Fifo.empty bs f ∧ q.Refines cap f :=
  h.simulate (S := Refines cap) (fun _ _ _ _ hS hst => hS.step hst) (new_refines cap)

/-- **First in, first out, at any capacity.** At the end of every run neither thread has left the
    vector or divided by zero; a thread at its access is at an index below `cap`, and at its modulo
    `cap` is not zero; the values loaded are a prefix of the values stored; a producer about to
    store finds its slot read, and a consumer about to load finds its slot unread. -/
theorem semRingQueue_fifo [Inhabited T] (cap : Nat) (as : List (Act T)) (q : SemRingQueue T)
    (h : Run (Lib.Step SemRingQueue.step) (new cap) as q) :
    (q.p.point ≠ .undefined ∧ q.c.point ≠ .undefined) ∧
    (∀ v, q.p.point = .access v → q.p.step < cap ∧ q.unread q.p.step = false) ∧
    (q.c.point = .access () → q.c.step < cap ∧ q.unread q.c.step = true) ∧
    (q.p.point = .wrap ∨ q.c.point = .wrap → cap ≠ 0) ∧
    q.loaded <+: q.stored := by
  obtain ⟨bs, f, hrun, href⟩ := refines_of_run h
  have hprod := href.prod
  have hcons := href.cons
  have hturn := href.turn
  rw [href.cap_eq] at hturn
  refine ⟨⟨?_, ?_⟩, ?_, ?_, ?_, ?_⟩
  · intro hp
    rwa [Thread.Ok, hp] at hprod
  · intro hc
    rwa [Thread.Ok, hc] at hcons
  · intro v hp
    obtain ⟨hfree, hidx⟩ := href.free_slot hp
    have hunread := href.unread.free hfree
    rw [← hidx] at hunread
    rw [href.cap_eq] at hidx hfree
    exact ⟨hidx ▸ Nat.mod_lt _ (by omega), hunread⟩
  · intro hc
    obtain ⟨hlt, hidx⟩ := href.unread_value hc
    have hunread := href.unread.waits hlt
    rw [← hidx] at hunread
    rw [href.cap_eq] at hidx
    exact ⟨hidx ▸ Nat.mod_lt _ (by omega), hunread⟩
  · rintro (hp | hc)
    · rw [Thread.Ok, hp, href.cap_eq] at hprod
      exact Nat.ne_of_gt hprod.1
    · rw [Thread.Ok, hc, href.cap_eq] at hcons
      exact Nat.ne_of_gt hcons.1
  · rw [← href.popped, ← href.pushed]
    exact Fifo.prefix_of_run hrun

/-- A queue of one slot: the consumer takes the value and calls again while the producer has not
    advanced its index yet, and the index has just left the vector. -/
theorem semRingQueue_fifo_early_post :
    ∃ q, Run (Lib.Step SemRingQueue.step) (new 1 : SemRingQueue Nat)
        [.callPush 7, .push, .push, .push, .callPop, .pop, .pop, .pop, .pop, .push] q ∧
      q.p.point = .wrap ∧ q.p.step = 1 ∧ q.loaded = [7] ∧ q.loaded <+: q.stored := by
  obtain ⟨q, hrun, hp, hstep, hq⟩ := exec_exists SemRingQueue.step (new 1 : SemRingQueue Nat)
    [.callPush 7, .push, .push, .push, .callPop, .pop, .pop, .pop, .pop, .push]
    (p := fun q => q.p.point = .wrap ∧ q.p.step = 1 ∧ q.loaded = [7]) (by decide)
  exact ⟨q, hrun, hp, hstep, hq, (semRingQueue_fifo 1 _ q hrun).2.2.2.2⟩

end Queue

end SystemCallLearn.Pthread.SemRingQueue
