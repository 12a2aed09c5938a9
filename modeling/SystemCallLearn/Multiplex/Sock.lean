import SystemCallLearn.Posix.Calls
import Mathlib.Logic.Function.Basic

/-!
# `Sock.hpp` for the servers that poll a table

`select_server.cc` and `poll_server.cc` keep their connections in a table of descriptors. What they
need of the kernel is which descriptors are open; a call that returns a new descriptor returns one
that is not.
-/

namespace SystemCallLearn.Multiplex

open SystemCallLearn.Posix

/-- Which descriptors of the process are open. -/
abbrev Fds := Int → Bool

/-- A new descriptor, which was not open before. -/
def Fds.create (opened : Fds) (fd : Int) : Option Fds :=
  if 0 ≤ fd ∧ opened fd = false then some (Function.update opened fd true) else none

/-- `close(fd)` -/
def Fds.close (opened : Fds) (fd : Int) : Fds := Function.update opened fd false

/-- The answer of `accept`. -/
inductive AcceptResult where
  | ok (fd : Int)
  | err (e : Errno)
  deriving DecidableEq

/-- Why `main` does not enter its loop: it exits, or an answer is one that the kernel does not
    give. -/
inductive Halt where
  | exit (code : Nat)
  | invalid
  deriving DecidableEq

/-- `Sock::Socket()` -/
def socket (opened : Fds) : Except Errno Int → Except Halt (Fds × Int)
  | .error _ => .error (.exit 2)
  | .ok fd =>
    match opened.create fd with
    | none => .error .invalid
    | some opened => .ok (opened, fd)

/-- `Sock::Bind(sock, port)` -/
def bind : Option Errno → Except Halt Unit
  | none => .ok ()
  | some _ => .error (.exit 3)

/-- `Sock::Listen(sock)` -/
def listen : Option Errno → Except Halt Unit
  | none => .ok ()
  | some _ => .error (.exit 4)

/-- `Sock::Accept(listen_sock)`: the descriptor of the connection, or -1. -/
def accept (opened : Fds) : AcceptResult → Option (Fds × Int)
  | .ok fd => (opened.create fd).map fun opened => (opened, fd)
  | .err _ => some (opened, -1)

/-- What the system calls of `main` before its loop answer. -/
structure SetupAnswers where
  socket : Except Errno Int
  bind : Option Errno
  listen : Option Errno

/-- `main` up to the listening socket. -/
def setup (opened : Fds) (argc : Nat) (a : SetupAnswers) : Except Halt (Fds × Int) :=
  if argc ≠ 2 then .error (.exit 1)
  else do
    let (opened, listenSock) ← Multiplex.socket opened a.socket
    Multiplex.bind a.bind
    Multiplex.listen a.listen
    return (opened, listenSock)

end SystemCallLearn.Multiplex
