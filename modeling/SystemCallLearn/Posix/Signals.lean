import Mathlib.Data.List.Basic
import Mathlib.Logic.Function.Basic

/-!
# Signals

What the kernel keeps for a process that has one thread and installs no handler. A signal that is
blocked stays pending, once, until it is unblocked; another one kills the process or does nothing,
according to its disposition. Signals that stop or continue the process count as doing nothing,
but each kind discards what is pending of the other.
-/

namespace SystemCallLearn.Posix

/-- A set of signals, `sigset_t`. -/
abbrev Sigset := Nat → Bool

/-- The numbers of the signals other than the real-time ones. -/
def signos : List Nat := List.range' 1 31

/-- `SIGKILL` and `SIGSTOP` cannot be blocked. -/
def blockable (signo : Nat) : Bool := signo != 9 && signo != 19

/-- `killed` is the signal that has killed the process, if one has. -/
structure Signals where
  mask : Sigset
  pending : Sigset
  killed : Option Nat

/-- `SIGCONT` discards the pending `SIGSTOP`, `SIGTSTP`, `SIGTTIN` and `SIGTTOU`, and each of them
    a pending `SIGCONT`. -/
def discards (signo : Nat) : List Nat :=
  if signo = 18 then [19, 20, 21, 22]
  else if signo = 19 ∨ signo = 20 ∨ signo = 21 ∨ signo = 22 then [18]
  else []

theorem notMem_discards (signo : Nat) : 2 ∉ discards signo := by
  unfold discards
  split_ifs <;> decide

namespace Signals

/-- What is left pending when a signal is sent. -/
def discard (s : Signals) (signo : Nat) : Signals :=
  { s with pending := fun n => s.pending n && decide (n ∉ discards signo) }

/-- The signal is blocked, or delivered; `deadly` says which signals kill a process. -/
def deliver (s : Signals) (deadly : Sigset) (signo : Nat) : Signals :=
  if s.mask signo = true then { s with pending := Function.update s.pending signo true }
  else if deadly signo = true then { s with killed := some signo }
  else s

/-- A signal is sent to the process. -/
def raise (s : Signals) (deadly : Sigset) (signo : Nat) : Signals :=
  (s.discard signo).deliver deadly signo

@[simp] theorem discard_mask (s : Signals) (signo : Nat) : (s.discard signo).mask = s.mask := rfl

@[simp] theorem discard_killed (s : Signals) (signo : Nat) :
    (s.discard signo).killed = s.killed := rfl

@[simp] theorem discard_two (s : Signals) (signo : Nat) :
    (s.discard signo).pending 2 = s.pending 2 := by
  simp [discard, notMem_discards]

/-- `sigprocmask(SIG_SETMASK, &set, …)`: what was pending and is not blocked any more is delivered
    before the call returns. -/
def sigprocmask (s : Signals) (deadly set : Sigset) : Signals where
  mask := fun signo => set signo && blockable signo
  pending := fun signo => s.pending signo && (set signo && blockable signo)
  killed := signos.find? fun signo =>
    s.pending signo && !(set signo && blockable signo) && deadly signo

end Signals

end SystemCallLearn.Posix
