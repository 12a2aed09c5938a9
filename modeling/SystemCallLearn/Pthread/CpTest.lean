import SystemCallLearn.Pthread.BlockQueue

/-!
# `CpTest.cc`

The main program of the blocking queue: one producer, which pushes random numbers for ever, and one
consumer, which pops for ever. The threads are the two sides of the queue.
-/

namespace SystemCallLearn.Pthread

instance : Fintype BlockQueue.Kind := ⟨{.push, .pop}, by intro k; cases k <;> decide⟩

namespace CpTest

/-- The queue with its two threads. -/
abbrev Queue := BlockQueue Int BlockQueue.Kind

/-- `default_cap` -/
def defaultCap : Nat := 5

/-- `rand()%20 + 1` -/
def data (rand : Nat) : Int := rand % 20 + 1

/-- What the loop of a thread calls: `Push(data)` in `producter`, `Pop(&data)` in `consumer`. -/
def Calls : BlockQueue.Kind → BlockQueue.Op Int → Prop
  | .push, .push v => ∃ rand, v = data rand
  | .pop, .pop => True
  | _, _ => False

/-- What happens in the program when no thread wakes by itself. -/
def Allowed (_ : Queue) : BlockQueue.Act Int BlockQueue.Kind → Prop
  | .enter i op => Calls i op
  | .run _ | .signal _ _ => True
  | .awake _ => False

end CpTest

end SystemCallLearn.Pthread
