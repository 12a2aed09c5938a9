import SystemCallLearn.Lib.Lts
import Mathlib.Data.Fintype.Basic
import Mathlib.Logic.Function.Basic

/-!
# The blocking queue

`BlockQueue` of `BlockQueue.hpp`. `Push` and `Pop` have the same shape: lock, `if` the queue is full
(empty) wait once, change the queue, signal the other side when the queue is more (less) than half
full, unlock. Any number of threads call them, in any order.

`pthread_cond_wait` releases the mutex and puts the thread to sleep in one step. A signal wakes one
thread that sleeps on its condition, if there is one; a sleeper may also wake by itself. A woken
thread returns from the wait once it has the mutex again, for which it competes with every other
thread.
-/

namespace SystemCallLearn.Pthread

/-- The calls of the queue. -/
inductive BlockQueue.Op (T : Type) where
  | push (v : T)
  | pop
  deriving DecidableEq

/-- The two sides of the queue. -/
inductive BlockQueue.Kind where
  | push
  | pop
  deriving DecidableEq

def BlockQueue.Op.kind {T : Type} : BlockQueue.Op T → BlockQueue.Kind
  | .push _ => .push
  | .pop => .pop

/-- The side that a call signals. -/
def BlockQueue.Kind.other : BlockQueue.Kind → BlockQueue.Kind
  | .push => .pop
  | .pop => .push

/-- The statement that a thread inside a call is about to run. At `sleep` it is blocked in
    `pthread_cond_wait`, at `wake` it has been woken there and needs the mutex to return. -/
inductive BlockQueue.Stage where
  | lock
  | test
  | sleep
  | wake
  | body
  | signal
  | unlock
  deriving DecidableEq

/-- Where a thread is. `undefined` is a thread that has read the front of an empty `std::queue`:
    the behaviour is undefined from there on and the model gives it no further step. -/
inductive BlockQueue.Point (T : Type) where
  | idle
  | call (op : BlockQueue.Op T) (st : BlockQueue.Stage)
  | undefined
  deriving DecidableEq

/-- The queue and its threads, with the values pushed and popped so far as ghosts. -/
structure BlockQueue (T ι : Type) where
  bq : List T
  cap : Nat
  mtx : Option ι
  point : ι → BlockQueue.Point T
  pushed : List T
  popped : List T

namespace BlockQueue

variable {T ι : Type}

/-- `BlockQueue(cap)`. -/
def new (cap : Nat) : BlockQueue T ι where
  bq := []
  cap := cap
  mtx := none
  point := fun _ => .idle
  pushed := []
  popped := []

def isFull (q : BlockQueue T ι) : Bool := q.bq.length == q.cap

def isEmpty (q : BlockQueue T ι) : Bool := q.bq.length == 0

/-- The test in front of the wait: `IsFull()` in `Push`, `IsEmpty()` in `Pop`. -/
def mustWait (q : BlockQueue T ι) : Kind → Bool
  | .push => q.isFull
  | .pop => q.isEmpty

/-- The test in front of the signal: `bq_.size() > cap_/2` in `Push`, `bq_.size() < cap_/2` in
    `Pop`. -/
def mustSignal (q : BlockQueue T ι) : Kind → Bool
  | .push => decide (q.bq.length > q.cap / 2)
  | .pop => decide (q.bq.length < q.cap / 2)

/-- The thread is blocked in the wait of `Push` (on `is_empty_`) or of `Pop` (on `is_full_`). -/
def Point.asleep (k : Kind) : Point T → Bool
  | .call op .sleep => op.kind == k
  | _ => false

variable [DecidableEq ι]

/-- Thread `i` goes on to the point `pt`. -/
def move (q : BlockQueue T ι) (i : ι) (pt : Point T) : BlockQueue T ι :=
  { q with point := Function.update q.point i pt }

/-- Thread `i` takes the mutex, if it is free, and goes on to the point `pt`. -/
def lockQueue (q : BlockQueue T ι) (i : ι) (pt : Point T) : Option (BlockQueue T ι) :=
  match q.mtx with
  | none => some { q.move i pt with mtx := some i }
  | some _ => none

/-- Thread `i` changes the queue: `bq_.push(in)` in `Push`, `*out = bq_.front(); bq_.pop();` in
    `Pop`. -/
def body (q : BlockQueue T ι) (i : ι) : Op T → BlockQueue T ι
  | .push v =>
    { q.move i (.call (.push v) .signal) with bq := q.bq ++ [v], pushed := q.pushed ++ [v] }
  | .pop =>
    match q.bq with
    | [] => q.move i .undefined
    | v :: rest => { q.move i (.call .pop .signal) with bq := rest, popped := q.popped ++ [v] }

/-- Thread `i` runs its next statement. It has none while it is outside a call or asleep, and a
    signal that is due is the action `signal`. -/
def run (q : BlockQueue T ι) (i : ι) : Option (BlockQueue T ι) :=
  match q.point i with
  | .idle | .undefined | .call _ .sleep => none
  | .call op .lock => q.lockQueue i (.call op .test)
  | .call op .test =>
    if q.mustWait op.kind then
      some { q.move i (.call op .sleep) with mtx := none }
    else
      some (q.move i (.call op .body))
  -- `pthread_cond_wait` returns, and the `if` does not test again
  | .call op .wake => q.lockQueue i (.call op .body)
  | .call op .body => some (q.body i op)
  | .call op .signal => if q.mustSignal op.kind then none else some (q.move i (.call op .unlock))
  | .call _ .unlock => some { q.move i .idle with mtx := none }

/-- Thread `i` enters a call. -/
def enter (q : BlockQueue T ι) (i : ι) (op : Op T) : Option (BlockQueue T ι) :=
  match q.point i with
  | .idle => some (q.move i (.call op .lock))
  | _ => none

/-- Thread `j`, asleep, wakes. -/
def awake (q : BlockQueue T ι) (j : ι) : Option (BlockQueue T ι) :=
  match q.point j with
  | .call op .sleep => some (q.move j (.call op .wake))
  | _ => none

/-- Thread `i` sends the signal that is due: to a sleeper of the other side, or to nobody if that
    side has no sleeper. -/
def signal [Fintype ι] (q : BlockQueue T ι) (i : ι) (target : Option ι) : Option (BlockQueue T ι) :=
  match q.point i with
  | .call op .signal =>
    if q.mustSignal op.kind then
      match target with
      | none =>
        if ∀ j, (q.point j).asleep op.kind.other = false then
          some (q.move i (.call op .unlock))
        else none
      | some j =>
        if (q.point j).asleep op.kind.other then
          (q.awake j).map fun q' => q'.move i (.call op .unlock)
        else none
    else none
  | _ => none

/-- Who moves: a thread enters a call, runs a statement, signals, or wakes by itself. -/
inductive Act (T ι : Type) where
  | enter (i : ι) (op : Op T)
  | run (i : ι)
  | signal (i : ι) (target : Option ι)
  | awake (j : ι)

/-- One step of the queue under any schedule. -/
def step [Fintype ι] (q : BlockQueue T ι) : Act T ι → Option (BlockQueue T ι)
  | .enter i op => q.enter i op
  | .run i => q.run i
  | .signal i target => q.signal i target
  | .awake j => q.awake j

/-- The wait of a thread that returns now is over: the test it was sent to sleep by fails. The
    other actions are not concerned. -/
def waitOver (q : BlockQueue T ι) : Act T ι → Bool
  | .run i =>
    match q.point i with
    | .call op .wake => !q.mustWait op.kind
    | _ => true
  | _ => true

end BlockQueue

end SystemCallLearn.Pthread
