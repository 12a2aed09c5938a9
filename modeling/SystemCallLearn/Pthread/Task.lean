import SystemCallLearn.Pthread.ThreadPool
import SystemCallLearn.Posix.Calls

/-!
# `Task.hpp`, and the tasks of `main.cc`

The tasks that the pool is made for: an operator and two `int`s. `Run` has no defined behaviour when
the result is not an `int` or the divisor is 0.
-/

namespace SystemCallLearn.Pthread

open SystemCallLearn.Posix

/-- `ns_task::Task` -/
structure Task where
  x : Int
  y : Int
  op : Char
  deriving DecidableEq

namespace Task

/-- The value as an `int`, if it is one. -/
def asInt (z : Int) : Option Int := if InInt z then some z else none

/-- `Run()`: its result, or `none` where the behaviour is undefined. -/
def run (t : Task) : Option Int :=
  match t.op with
  | '+' => asInt (t.x + t.y)
  | '-' => asInt (t.x - t.y)
  | '*' => asInt (t.x * t.y)
  | '/' => if t.y = 0 then none else asInt (t.x.tdiv t.y)
  | '%' => if t.y = 0 then none else (asInt (t.x.tdiv t.y)).map fun _ => t.x.tmod t.y
  -- "bug??"
  | _ => some 0

/-- `"+-*/%"` -/
def ops : List Char := ['+', '-', '*', '/', '%']

/-- The task that `main` makes of three answers of `rand()`. -/
def ofRand (r1 r2 r3 : Nat) : Task where
  x := r1 % 20 + 1
  y := r2 % 10 + 1
  op := ops.getD (r3 % 5) ' '

/-- What `main` pushes. -/
def Made (t : Task) : Prop := ∃ r1 r2 r3, t = ofRand r1 r2 r3

end Task

end SystemCallLearn.Pthread
