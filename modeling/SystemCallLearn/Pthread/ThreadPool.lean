import SystemCallLearn.Lib.Lts
import Mathlib.Data.Fintype.Basic
import Mathlib.Logic.Function.Basic

/-!
# The thread pool

`ThreadPool` of `thread_pool.hpp`, without the singleton around it. A worker runs `Rountine`: lock,
`while` the queue is empty wait, `PopTask`, unlock, run the task, and again. Any other thread may
call `PushTask`: lock, push, unlock, and only then signal.

`pthread_cond_wait` releases the mutex and puts the thread to sleep in one step. A signal wakes at
least one of the threads that sleep, if there is one; a sleeper may also wake by itself. A woken
thread returns from the wait once it has the mutex again, for which it competes with every other
thread.
-/

namespace SystemCallLearn.Pthread

/-- Where a thread is: outside the pool, or about to run the statement named, of `Rountine` or of
    `PushTask`. At `sleep` it is blocked in `pthread_cond_wait`, at `wake` it has been woken there
    and needs the mutex to return. `undefined` is a thread that has read the front of an empty
    `std::queue`.

    Ghosts: `woken` says that the thread has been woken since it was last outside its critical
    section, and `place` is the place of `t` among the tasks removed. -/
inductive ThreadPool.Point (T : Type) where
  | idle
  | lock
  | test (woken : Bool)
  | sleep
  | wake
  | popTask (woken : Bool)
  | unlock (t : T) (place : Nat)
  | task (t : T) (place : Nat)
  | pushLock (v : T)
  | push (v : T)
  | pushUnlock
  | wakeup
  | undefined
  deriving DecidableEq

/-- A task that a worker has run: the one at `place` among those removed. -/
structure ThreadPool.Ran (T ι : Type) where
  worker : ι
  place : Nat
  task : T
  deriving DecidableEq

/-- The pool and the threads, with three ghosts: the tasks pushed, the tasks removed with the worker
    that removed each, and the tasks run, all in order. -/
structure ThreadPool (T ι : Type) where
  taskQueue : List T
  mtx : Option ι
  point : ι → ThreadPool.Point T
  pushed : List T
  removed : List (ι × T)
  ran : List (ThreadPool.Ran T ι)

namespace ThreadPool

variable {T ι : Type}

/-- `ThreadPool()`. -/
def new : ThreadPool T ι where
  taskQueue := []
  mtx := none
  point := fun _ => .idle
  pushed := []
  removed := []
  ran := []

/-- The thread is blocked in `Wait()`. -/
def Point.asleep : Point T → Bool
  | .sleep => true
  | _ => false

def isEmpey (q : ThreadPool T ι) : Bool := q.taskQueue.isEmpty

variable [DecidableEq ι]

/-- Thread `i` goes on to the point `pt`. -/
def move (q : ThreadPool T ι) (i : ι) (pt : Point T) : ThreadPool T ι :=
  { q with point := Function.update q.point i pt }

/-- Thread `i` takes the mutex, if it is free, and goes on to the point `pt`. -/
def lock (q : ThreadPool T ι) (i : ι) (pt : Point T) : Option (ThreadPool T ι) :=
  match q.mtx with
  | none => some { q.move i pt with mtx := some i }
  | some _ => none

/-- `PopTask(&t)` in thread `i`. -/
def popTask (q : ThreadPool T ι) (i : ι) : ThreadPool T ι :=
  match q.taskQueue with
  | [] => q.move i .undefined
  | t :: rest => { q.move i (.unlock t q.removed.length) with
      taskQueue := rest
      removed := q.removed ++ [(i, t)] }

/-- Thread `i` runs its next statement. It has none while it is outside the pool or asleep, and the
    signal of `PushTask` is the action `wakeup`. -/
def run (q : ThreadPool T ι) (i : ι) : Option (ThreadPool T ι) :=
  match q.point i with
  | .idle | .sleep | .wakeup | .undefined => none
  | .lock => q.lock i (.test false)
  | .test woken =>
    if q.isEmpey then some { q.move i .sleep with mtx := none }
    else some (q.move i (.popTask woken))
  -- `pthread_cond_wait` returns, and the `while` tests again
  | .wake => q.lock i (.test true)
  | .popTask _ => some (q.popTask i)
  | .unlock t place => some { q.move i (.task t place) with mtx := none }
  | .task t place => some { q.move i .lock with
      ran := q.ran ++ [{ worker := i, place := place, task := t }] }
  | .pushLock v => q.lock i (.push v)
  | .push v => some { q.move i .pushUnlock with
      taskQueue := q.taskQueue ++ [v]
      pushed := q.pushed ++ [v] }
  | .pushUnlock => some { q.move i .wakeup with mtx := none }

/-- Thread `i`, outside the pool, goes to the point `pt`. -/
def enter (q : ThreadPool T ι) (i : ι) (pt : Point T) : Option (ThreadPool T ι) :=
  match q.point i with
  | .idle => some (q.move i pt)
  | _ => none

/-- Thread `j`, asleep, wakes. -/
def awake (q : ThreadPool T ι) (j : ι) : Option (ThreadPool T ι) :=
  match q.point j with
  | .sleep => some (q.move j .wake)
  | _ => none

/-- `pthread_cond_signal(&cond_)` in thread `i` wakes the threads `woken`: sleepers, and at least
    one unless nobody sleeps. -/
def wakeup [Fintype ι] (q : ThreadPool T ι) (i : ι) (woken : List ι) :
    Option (ThreadPool T ι) :=
  match q.point i with
  | .wakeup =>
    if (∀ j ∈ woken, (q.point j).asleep = true) ∧
        (woken = [] → ∀ j, (q.point j).asleep = false) then
      some ({ q with point := fun j => if j ∈ woken then .wake else q.point j }.move i .idle)
    else none
  | _ => none

/-- Who moves: a thread is created to run `Rountine`, calls `PushTask`, runs a statement, signals,
    or wakes by itself. -/
inductive Act (T ι : Type) where
  | rountine (i : ι)
  | pushTask (i : ι) (v : T)
  | run (i : ι)
  | wakeup (i : ι) (woken : List ι)
  | awake (j : ι)

/-- One step of the pool under any schedule. -/
def step [Fintype ι] (q : ThreadPool T ι) : Act T ι → Option (ThreadPool T ι)
  | .rountine i => q.enter i .lock
  | .pushTask i v => q.enter i (.pushLock v)
  | .run i => q.run i
  | .wakeup i woken => q.wakeup i woken
  | .awake j => q.awake j

end ThreadPool

end SystemCallLearn.Pthread
