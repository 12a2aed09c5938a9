import SystemCallLearn.Pthread.RingQueue

/-!
# The single-producer single-consumer ring queue

`RingQueue` of `ring_queue(基于信号量).cc`: two semaphores and no mutex. One thread calls `Push` and
one calls `Pop`; the two calls run the same five statements on mirrored members:

| statement     | `Push`                        | `Pop`                          |
|---------------|-------------------------------|--------------------------------|
| wait          | `sem_wait(&blank_sem_)`       | `sem_wait(&data_sem_)`         |
| access        | `ring_queue_[p_step_] = in`   | `*out = ring_queue_[c_step_]`  |
| post          | `sem_post(&data_sem_)`        | `sem_post(&blank_sem_)`        |
| increment     | `p_step_++`                   | `c_step_++`                    |
| wrap          | `p_step_ %= cap_`             | `c_step_ %= cap_`              |

The post comes before the index is advanced: the other thread may run a whole call while the index
still points at the slot just used, or past the last slot.
-/

namespace SystemCallLearn.Pthread

/-- Where the thread is: outside a call, or about to run the statement named. `undefined` is a
    thread that has accessed the vector outside its bounds or divided by zero. -/
inductive SemRingQueue.Point (A : Type) where
  | idle
  | wait (a : A)
  | access (a : A)
  | post
  | increment
  | wrap
  | undefined
  deriving DecidableEq

/-- A thread and the index that it alone uses. -/
structure SemRingQueue.Thread (A : Type) where
  step : Nat
  point : SemRingQueue.Point A

/-- The queue and its two threads, with three ghosts: the values stored and loaded so far in the
    order of the accesses, and which slots hold a value that no `Pop` has read yet. -/
structure SemRingQueue (T : Type) where
  ringQueue : List T
  cap : Nat
  blankSem : Nat
  dataSem : Nat
  p : SemRingQueue.Thread T
  c : SemRingQueue.Thread Unit
  stored : List T
  loaded : List T
  unread : Nat → Bool

namespace SemRingQueue

variable {T A : Type}

/-- The thread runs its next statement, as far as the thread itself and its index are concerned. -/
def Thread.advance (cap : Nat) (s : Thread A) : Option (Thread A × Effect A) :=
  match s.point with
  | .idle | .undefined => none
  | .wait a => some ({ s with point := .access a }, .wait)
  | .access a => some ({ s with point := .post }, .access a)
  | .post => some ({ s with point := .increment }, .post)
  | .increment => some ({ step := s.step + 1, point := .wrap }, .none)
  | .wrap =>
    if cap = 0 then some ({ s with point := .undefined }, .none)
    else some ({ step := s.step % cap, point := .idle }, .none)

/-- The thread, outside a call, starts one with the argument `a`. -/
def Thread.call (s : Thread A) (a : A) : Option (Thread A) :=
  match s.point with
  | .idle => some { s with point := .wait a }
  | _ => none

/-- `RingQueue(cap)`: a vector of `cap` default values, `cap` blank permits, no data permits. -/
def new [Inhabited T] (cap : Nat) : SemRingQueue T where
  ringQueue := List.replicate cap default
  cap := cap
  blankSem := cap
  dataSem := 0
  p := { step := 0, point := .idle }
  c := { step := 0, point := .idle }
  stored := []
  loaded := []
  unread := fun _ => false

/-- The producer runs the next statement of `Push`. -/
def push (q : SemRingQueue T) : Option (SemRingQueue T) :=
  match q.p.advance q.cap with
  | none => none
  | some (p, .none) => some { q with p := p }
  | some (p, .wait) => (semWait q.blankSem).map fun n => { q with p := p, blankSem := n }
  | some (p, .access v) =>
    if q.p.step < q.ringQueue.length then
      some { q with
        p := p
        ringQueue := q.ringQueue.set q.p.step v
        stored := q.stored ++ [v]
        unread := Function.update q.unread q.p.step true }
    else some { q with p := { q.p with point := .undefined } }
  | some (p, .post) => some { q with p := p, dataSem := semPost q.dataSem }

/-- The consumer runs the next statement of `Pop`. -/
def pop (q : SemRingQueue T) : Option (SemRingQueue T) :=
  match q.c.advance q.cap with
  | none => none
  | some (c, .none) => some { q with c := c }
  | some (c, .wait) => (semWait q.dataSem).map fun n => { q with c := c, dataSem := n }
  | some (c, .access ()) =>
    match q.ringQueue[q.c.step]? with
    | none => some { q with c := { q.c with point := .undefined } }
    | some v => some { q with
        c := c
        loaded := q.loaded ++ [v]
        unread := Function.update q.unread q.c.step false }
  | some (c, .post) => some { q with c := c, blankSem := semPost q.blankSem }

/-- Who moves: a thread enters its call, or runs the next statement of it. -/
inductive Act (T : Type) where
  | callPush (v : T)
  | push
  | callPop
  | pop

/-- One step of the queue under any schedule. -/
def step (q : SemRingQueue T) : Act T → Option (SemRingQueue T)
  | .callPush v => (q.p.call v).map fun p => { q with p := p }
  | .push => q.push
  | .callPop => (q.c.call ()).map fun c => { q with c := c }
  | .pop => q.pop

end SemRingQueue

end SystemCallLearn.Pthread
