import SystemCallLearn.Lib.Lts
import Mathlib.Logic.Function.Basic

/-!
# The multi-producer multi-consumer ring queue

`RingQueue` of `MultiThreadVersion.cc`. `Push` and `Pop` run the same eight statements on mirrored
members:

| statement     | `Push`                        | `Pop`                          |
|---------------|-------------------------------|--------------------------------|
| wait          | `sem_wait(&blank_sem_)`       | `sem_wait(&data_sem_)`         |
| lock          | `lock(&p_mtx_)`               | `lock(&c_mtx_)`                |
| access        | `ring_queue_[p_step_] = in`   | `*out = ring_queue_[c_step_]`  |
| increment     | `p_step_++`                   | `c_step_++`                    |
| wrap          | `p_step_ %= cap_`             | `c_step_ %= cap_`              |
| unlock        | `unlock(&p_mtx_)`             | `unlock(&c_mtx_)`              |
| post          | `sem_post(&data_sem_)`        | `sem_post(&blank_sem_)`        |

A thread takes one statement at a time, in any order with the others. `sem_wait` returns only
after taking a permit and a mutex has at most one owner; a thread that cannot pass has no step.
-/

namespace SystemCallLearn.Pthread

/-- Where a thread is: outside a call, or about to run the statement named. `A` is the argument of
    the call, the value for `Push` and nothing for `Pop`. -/
inductive Point (A : Type) where
  | idle
  | wait (a : A)
  | lock (a : A)
  | access (a : A)
  | increment
  | wrap
  | unlock
  | post
  deriving DecidableEq

/-- What a statement does outside the members of its own side. -/
inductive Effect (A : Type) where
  | none
  | wait
  | access (a : A)
  | post

/-- The members one side of the queue has for itself, and the points of its threads: `p_mtx_` and
    `p_step_` with the producers, `c_mtx_` and `c_step_` with the consumers. -/
structure Side (ι A : Type) where
  mtx : Option ι
  step : Nat
  point : ι → Point A

section Side

variable {ι A : Type} [DecidableEq ι]

/-- Thread `i` goes on to the point `pt`. -/
def Side.move (s : Side ι A) (i : ι) (pt : Point A) : Side ι A :=
  { s with point := Function.update s.point i pt }

/-- Thread `i` runs its next statement, as far as its own side is concerned. -/
def Side.advance (cap : Nat) (s : Side ι A) (i : ι) : Option (Side ι A × Effect A) :=
  match s.point i with
  | .idle => none
  | .wait a => some (s.move i (.lock a), .wait)
  | .lock a =>
    match s.mtx with
    | none => some ({ s.move i (.access a) with mtx := some i }, .none)
    | some _ => none
  | .access a => some (s.move i .increment, .access a)
  | .increment => some ({ s.move i .wrap with step := s.step + 1 }, .none)
  | .wrap => some ({ s.move i .unlock with step := s.step % cap }, .none)
  | .unlock => some ({ s.move i .post with mtx := none }, .none)
  | .post => some (s.move i .idle, .post)

/-- Thread `i`, outside a call, starts one with the argument `a`. -/
def Side.call (s : Side ι A) (i : ι) (a : A) : Option (Side ι A) :=
  match s.point i with
  | .idle => some (s.move i (.wait a))
  | _ => none

end Side

/-- The queue, its threads, and three ghosts: the values stored and loaded so far in the order of
    the accesses, and which slots hold a value that no `Pop` has read yet. -/
structure RingQueue (T P C : Type) where
  ringQueue : List T
  cap : Nat
  blankSem : Nat
  dataSem : Nat
  p : Side P T
  c : Side C Unit
  stored : List T
  loaded : List T
  unread : Nat → Bool

/-- `RingQueue(cap)`: a vector of `cap` default values, `cap` blank permits, no data permits. -/
def RingQueue.new {T P C : Type} [Inhabited T] (cap : Nat) : RingQueue T P C where
  ringQueue := List.replicate cap default
  cap := cap
  blankSem := cap
  dataSem := 0
  p := { mtx := none, step := 0, point := fun _ => .idle }
  c := { mtx := none, step := 0, point := fun _ => .idle }
  stored := []
  loaded := []
  unread := fun _ => false

/-- `sem_wait`: takes a permit if there is one. -/
def semWait : Nat → Option Nat
  | 0 => none
  | n + 1 => some n

/-- `sem_post`: gives a permit back. -/
def semPost (n : Nat) : Nat := n + 1

variable {T P C : Type} [DecidableEq P] [DecidableEq C]

/-- Producer `i` runs the next statement of `Push`. -/
def RingQueue.push (q : RingQueue T P C) (i : P) : Option (RingQueue T P C) :=
  match q.p.advance q.cap i with
  | none => none
  | some (p, .none) => some { q with p := p }
  | some (p, .wait) => (semWait q.blankSem).map fun n => { q with p := p, blankSem := n }
  | some (p, .access v) => some { q with
      p := p
      ringQueue := q.ringQueue.set q.p.step v
      stored := q.stored ++ [v]
      unread := Function.update q.unread q.p.step true }
  | some (p, .post) => some { q with p := p, dataSem := semPost q.dataSem }

/-- Consumer `j` runs the next statement of `Pop`. -/
def RingQueue.pop (q : RingQueue T P C) (j : C) : Option (RingQueue T P C) :=
  match q.c.advance q.cap j with
  | none => none
  | some (c, .none) => some { q with c := c }
  | some (c, .wait) => (semWait q.dataSem).map fun n => { q with c := c, dataSem := n }
  | some (c, .access ()) =>
    -- an index past the end of the vector reads nothing: the thread stays where it is
    match q.ringQueue[q.c.step]? with
    | none => none
    | some v => some { q with
        c := c
        loaded := q.loaded ++ [v]
        unread := Function.update q.unread q.c.step false }
  | some (c, .post) => some { q with c := c, blankSem := semPost q.blankSem }

/-- Who moves: a thread enters a call, or runs the next statement of the call it is in. -/
inductive RingAct (T P C : Type) where
  | callPush (i : P) (v : T)
  | push (i : P)
  | callPop (j : C)
  | pop (j : C)

/-- One step of the queue under any schedule. -/
def RingQueue.step (q : RingQueue T P C) : RingAct T P C → Option (RingQueue T P C)
  | .callPush i v => (q.p.call i v).map fun p => { q with p := p }
  | .push i => q.push i
  | .callPop j => (q.c.call j ()).map fun c => { q with c := c }
  | .pop j => q.pop j

end SystemCallLearn.Pthread
