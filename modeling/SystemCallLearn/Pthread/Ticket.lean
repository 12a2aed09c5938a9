import SystemCallLearn.Lib.Lts
import Mathlib.Logic.Function.Basic

/-!
# `抢票问题互斥锁.c`

Any number of threads run `ThreadRun` on one `Ticket`: each calls `GetTicket` again and again until
it returns `false`. A step is one statement of one thread. The mutex is held from the test to the
end of the branch, also while its owner sleeps. `ThreadRun` is declared to return a `void *` and has
no return statement behind its loop: the `break` is taken as the end of the thread.
-/

namespace SystemCallLearn.Pthread

/-- What is printed: the ticket that a thread is about to take, or that there are none left. -/
inductive Ticket.Message (ι : Type) where
  | ticket (self : ι) (tickets : Int)
  | soldOut

/-- A call of `GetTicket`: its `res`, and as a ghost the ticket that it has printed. -/
structure Ticket.Call where
  res : Bool
  ticket : Option Int
  deriving DecidableEq

/-- Where a thread is: about to run the statement named, or out of its loop. At `decrement` it has
    printed the ticket given, a ghost; `soldOut` is the branch without tickets. -/
inductive Ticket.Point where
  | lock
  | test
  | usleep
  | print
  | decrement (ticket : Int)
  | soldOut
  | unlock (c : Ticket.Call)
  | ret (c : Ticket.Call)
  | done
  deriving DecidableEq

/-- The counter and its mutex, the threads and the output. Ghosts: the number of decrements so far,
    and the calls that have returned. -/
structure Ticket (ι : Type) where
  tickets : Int
  mtx : Option ι
  point : ι → Ticket.Point
  output : List (Ticket.Message ι)
  decrements : Nat
  returned : List Ticket.Call

namespace Ticket

variable {ι : Type}

/-- `Ticket()`, and no thread has begun. -/
def start : Ticket ι where
  tickets := 1000
  mtx := none
  point := fun _ => .lock
  output := []
  decrements := 0
  returned := []

variable [DecidableEq ι]

/-- Thread `i` goes on to the point `pt`. -/
def move (s : Ticket ι) (i : ι) (pt : Point) : Ticket ι :=
  { s with point := Function.update s.point i pt }

/-- Thread `i` runs its next statement, unless it has to wait for the mutex or is done. -/
def step (s : Ticket ι) (i : ι) : Option (Ticket ι) :=
  match s.point i with
  | .lock =>
    match s.mtx with
    | none => some { s.move i .test with mtx := some i }
    | some _ => none
  | .test => some (s.move i (if 0 < s.tickets then .usleep else .soldOut))
  | .usleep => some (s.move i .print)
  | .print => some { s.move i (.decrement s.tickets) with
      output := s.output ++ [.ticket i s.tickets] }
  | .decrement ticket => some { s.move i (.unlock ⟨true, some ticket⟩) with
      tickets := s.tickets - 1
      decrements := s.decrements + 1 }
  | .soldOut => some { s.move i (.unlock ⟨false, none⟩) with output := s.output ++ [.soldOut] }
  | .unlock c => some { s.move i (.ret c) with mtx := none }
  -- the loop of `ThreadRun`: the next call, or `break`
  | .ret c => some { s.move i (if c.res then .lock else .done) with returned := s.returned ++ [c] }
  | .done => none

/-! ## What is sold -/

/-- The number of the ticket in a message. -/
def Message.number : Message ι → Option Int
  | .ticket _ tickets => some tickets
  | .soldOut => none

/-- The numbers of the tickets printed, in order. -/
def printed (s : Ticket ι) : List Int := s.output.filterMap Message.number

/-- The ticket of the call under way, if it is to return `true`. -/
def Point.ticket : Point → Option Int
  | .decrement ticket => some ticket
  | .unlock c | .ret c => if c.res then c.ticket else none
  | _ => none

/-- The ticket belongs to exactly one call: either one call has returned `true` with it, or one is
    under way that is to do so. -/
def SoldOnce (s : Ticket ι) (ticket : Int) : Prop :=
  (s.returned.count ⟨true, some ticket⟩ = 1 ∧ ∀ i, (s.point i).ticket ≠ some ticket) ∨
  (s.returned.count ⟨true, some ticket⟩ = 0 ∧ ∃! i, (s.point i).ticket = some ticket)

end Ticket

end SystemCallLearn.Pthread
