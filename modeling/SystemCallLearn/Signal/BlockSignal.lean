import SystemCallLearn.Posix.Signals

/-!
# `信号屏蔽.c`

The program blocks the signal 2, prints the set of pending signals once a second, and restores the
old mask after twenty lines. Other processes may send it signals at any time, as may the user.
-/

namespace SystemCallLearn.Signal

open SystemCallLearn.Posix

/-- Where the program is: before `sigprocmask`, or in the loop before `sigpending`, or behind
    `show_pending`. -/
inductive BlockSignal.Point where
  | sigprocmask
  | sigpending
  | sleep
  deriving DecidableEq

/-- A line printed, with the signals sent before it as a ghost. -/
structure BlockSignal.Line where
  digits : List Bool
  sent : List Nat
  deriving DecidableEq

/-- The signals of the process, the variables `outset` and `count`, the lines printed, and as a ghost
    the signals that were sent, in order. -/
structure BlockSignal where
  signals : Signals
  point : BlockSignal.Point
  outset : Sigset
  count : Nat
  output : List BlockSignal.Line
  sent : List Nat

namespace BlockSignal

/-- `sigaddset(&inset, 2)` on the empty set. -/
def inset : Sigset := fun signo => signo == 2

/-- The digits that `show_pending` prints, for `i` from 1 to 31. -/
def showPending (pending : Sigset) : List Bool := signos.map pending

/-- The mask and the pending signals are those the process was started with. -/
def start (mask pending : Sigset) : BlockSignal where
  signals := { mask := mask, pending := pending, killed := none }
  point := .sigprocmask
  outset := fun _ => false
  count := 0
  output := []
  sent := []

/-- `count++`, and after twenty rounds the old mask is restored. -/
def tick (s : BlockSignal) (deadly : Sigset) : BlockSignal :=
  { s with
    point := .sigpending, count := s.count + 1,
    signals := if s.count + 1 = 20 then s.signals.sigprocmask deadly s.outset else s.signals }

/-- The program runs its next statements. -/
def run (s : BlockSignal) (deadly : Sigset) : BlockSignal :=
  match s.point with
  | .sigprocmask =>
    { s with
      point := .sigpending, outset := s.signals.mask,
      signals := s.signals.sigprocmask deadly inset }
  | .sigpending =>
    { s with point := .sleep, output := s.output ++ [⟨showPending s.signals.pending, s.sent⟩] }
  | .sleep => s.tick deadly

/-- What happens next: a signal is sent, or the program goes on. -/
inductive Act where
  | raise (signo : Nat)
  | run
  deriving DecidableEq

/-- One step, while the process lives. -/
def step (deadly : Sigset) (s : BlockSignal) (a : Act) : Option BlockSignal :=
  if s.signals.killed = none then
    match a with
    | .raise signo =>
      if signo ∈ signos then
        some { s with signals := s.signals.raise deadly signo, sent := s.sent ++ [signo] }
      else none
    | .run => some (s.run deadly)
  else none

end BlockSignal

end SystemCallLearn.Signal
