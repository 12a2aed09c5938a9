import SystemCallLearn.Lib.Lts
import Mathlib.Logic.Function.Basic

/-!
# The singleton

`GetInstance` of `thread_pool.hpp`, called by any number of threads. `ins` is tested without the
lock, and again under it; the thread that finds it null there makes the pool, stores its address in
`ins` and only then has `InitThreadPool` create the workers. Reads and writes of `ins` are taken as
sequentially consistent. What the workers do is in the model of the pool.
-/

namespace SystemCallLearn.Pthread

/-- `g_num` -/
def gNum : Nat := 5

/-- Where a thread is: outside `GetInstance`, or about to run the statement named. At `publish p` it
    has made the pool at `p` and is to store the address, at `loop` it is at the test of the `for`
    loop of `InitThreadPool` on `p`, and at `create` in its body. `undefined` is a thread that has
    followed a null pointer. -/
inductive GetInstance.Point where
  | idle
  | check
  | lock
  | recheck
  | construct
  | publish (p : Nat)
  | initThreadPool
  | loop (p i : Nat)
  | create (p i : Nat)
  | unlock
  | ret
  | undefined
  deriving DecidableEq

/-- A pool on the heap: its `num_`, and how many threads have been created to run its `Rountine`. -/
structure GetInstance.Pool where
  num : Nat
  workers : Nat
  deriving DecidableEq

/-- What a call has returned. Ghosts: whether `InitThreadPool` was done on that pool by then, and
    the pool as it was. -/
structure GetInstance.Returned where
  ins : Option Nat
  initialised : Bool
  pool : Option GetInstance.Pool
  deriving DecidableEq

/-- The statics `ins` and `lock`, the pools made so far, by address, and the threads, with three
    ghosts: the pools on which `InitThreadPool` was called, those on which it is done, and what the
    calls returned, all in order. -/
structure GetInstance (ι : Type) where
  ins : Option Nat
  lock : Option ι
  pools : List GetInstance.Pool
  point : ι → GetInstance.Point
  inits : List Nat
  completed : List Nat
  returned : List GetInstance.Returned

namespace GetInstance

variable {ι : Type}

/-- `ThreadPool(int num = g_num)` -/
def threadPool : Pool where
  num := gNum
  workers := 0

/-- The process before the first call. -/
def start : GetInstance ι where
  ins := none
  lock := none
  pools := []
  point := fun _ => .idle
  inits := []
  completed := []
  returned := []

/-- `return ins;` -/
def read (s : GetInstance ι) : Returned where
  ins := s.ins
  initialised := s.ins.any fun p => decide (p ∈ s.completed)
  pool := s.ins.bind fun p => s.pools[p]?

variable [DecidableEq ι]

/-- Thread `i` goes on to the point `pt`. -/
def move (s : GetInstance ι) (i : ι) (pt : Point) : GetInstance ι :=
  { s with point := Function.update s.point i pt }

/-- Thread `i` runs its next statement. It has none while it is outside, and the answer of
    `pthread_create` is the action `create`. -/
def run (s : GetInstance ι) (i : ι) : Option (GetInstance ι) :=
  match s.point i with
  | .idle | .create _ _ | .undefined => none
  | .check => some (s.move i (if s.ins = none then .lock else .ret))
  | .lock =>
    match s.lock with
    | none => some { s.move i .recheck with lock := some i }
    | some _ => none
  | .recheck => some (s.move i (if s.ins = none then .construct else .unlock))
  | .construct => some { s.move i (.publish s.pools.length) with pools := s.pools ++ [threadPool] }
  | .publish p => some { s.move i .initThreadPool with ins := some p }
  -- `ins` is read again
  | .initThreadPool =>
    match s.ins with
    | none => some (s.move i .undefined)
    | some p => some { s.move i (.loop p 0) with inits := s.inits ++ [p] }
  | .loop p k =>
    match s.pools[p]? with
    | none => some (s.move i .undefined)
    | some pool =>
      if k < pool.num then some (s.move i (.create p k))
      else some { s.move i .unlock with completed := s.completed ++ [p] }
  | .unlock => some { s.move i .ret with lock := none }
  | .ret => some { s.move i .idle with returned := s.returned ++ [s.read] }

/-- `pthread_create` in thread `i`, with its answer, which nobody looks at. -/
def create (s : GetInstance ι) (i : ι) (created : Bool) : Option (GetInstance ι) :=
  match s.point i with
  | .create p k => some { s.move i (.loop p (k + 1)) with
      pools := s.pools.modify p fun pool => { pool with workers := pool.workers + created.toNat } }
  | _ => none

/-- Thread `i` calls `GetInstance`. -/
def call (s : GetInstance ι) (i : ι) : Option (GetInstance ι) :=
  match s.point i with
  | .idle => some (s.move i .check)
  | _ => none

/-- Who moves: a thread calls `GetInstance`, runs a statement, or creates a worker. -/
inductive Act (ι : Type) where
  | call (i : ι)
  | run (i : ι)
  | create (i : ι) (created : Bool)

/-- One step under any schedule. -/
def step (s : GetInstance ι) : Act ι → Option (GetInstance ι)
  | .call i => s.call i
  | .run i => s.run i
  | .create i created => s.create i created

end GetInstance

end SystemCallLearn.Pthread
