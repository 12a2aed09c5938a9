import SystemCallLearn.Lib.Lts

/-!
# First-in first-out histories

The abstract queue: what was put in, what was taken out, and what waits in between. It says what a
queue is for, with no slots, indices, locks or semaphores. A concrete queue is correct when its
runs are simulated by the runs of this one.
-/

namespace SystemCallLearn.Lib

variable {T : Type*}

/-- A queue with its history. -/
structure Fifo (T : Type*) where
  /-- The values put in, oldest first. -/
  pushed : List T
  /-- The values taken out, oldest first. -/
  popped : List T
  /-- The values that wait, oldest first. -/
  items : List T

/-- The operations of the queue. -/
inductive FifoOp (T : Type*) where
  | push (v : T)
  | pop

/-- The queue before its first operation. -/
def Fifo.empty : Fifo T := { pushed := [], popped := [], items := [] }

/-- One operation: `push` appends at the back, `pop` takes the front and is enabled only when there
    is one. -/
def Fifo.step (q : Fifo T) : FifoOp T → Option (Fifo T)
  | .push v => some { q with pushed := q.pushed ++ [v], items := q.items ++ [v] }
  | .pop =>
    match q.items with
    | [] => none
    | v :: rest => some { q with popped := q.popped ++ [v], items := rest }

/-- What was put in is what was taken out followed by what waits. -/
def Fifo.Conserves (q : Fifo T) : Prop := q.pushed = q.popped ++ q.items

theorem Fifo.empty_conserves : (Fifo.empty : Fifo T).Conserves := rfl

theorem Fifo.step_conserves {q q' : Fifo T} {a : FifoOp T} (h : q.Conserves)
    (hst : Step Fifo.step q a q') : q'.Conserves := by
  unfold Fifo.Conserves at h ⊢
  cases a with
  | push v =>
    simp only [Step, Fifo.step, Option.some.injEq] at hst
    subst hst
    simp [h]
  | pop =>
    cases hq : q.items with
    | nil => simp [Step, Fifo.step, hq] at hst
    | cons v rest =>
      simp only [Step, Fifo.step, hq, Option.some.injEq] at hst
      subst hst
      simp [h, hq]

theorem Fifo.conserves_of_run {q : Fifo T} {as : List (FifoOp T)}
    (h : Run (Step Fifo.step) Fifo.empty as q) : q.Conserves :=
  h.invariant (fun _ _ _ => Fifo.step_conserves) Fifo.empty_conserves

/-- **First in, first out.** In every history of the queue the values taken out are a prefix of the
    values put in: none is lost, duplicated or overtaken. -/
theorem Fifo.prefix_of_run {q : Fifo T} {as : List (FifoOp T)}
    (h : Run (Step Fifo.step) Fifo.empty as q) : q.popped <+: q.pushed :=
  ⟨q.items, (Fifo.conserves_of_run h).symm⟩

end SystemCallLearn.Lib
