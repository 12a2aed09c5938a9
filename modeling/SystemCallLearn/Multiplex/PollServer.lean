import SystemCallLearn.Multiplex.Sock

/-!
# `poll_server.cc`

The loop of `main` is a machine. At its head `n` is recomputed and `poll` is called on the first `n`
entries of `arr`; then the scan looks at one entry in each step.

`Sock::Accept(listen_sock, peer)` is not in the repository. It is taken to answer like the `Accept`
of `Sock.hpp`: the descriptor of the connection, or -1.
-/

namespace SystemCallLearn.Multiplex

open SystemCallLearn.Posix

/-- `struct pollfd` -/
structure PollFd where
  fd : Int
  events : UInt16
  revents : UInt16
  deriving DecidableEq

/-- `POLLIN` -/
def pollIn : UInt16 := 0x001

/-- The server: `scan` is the `i` of the loop over the entries, and `none` at the head of the event
    loop. Ghosts: the descriptors that the last `poll` was given, those that it reported readable,
    all descriptors accepted so far, and those accepted since that `poll`. -/
structure PollServer where
  listenSock : Int
  arr : List PollFd
  n : Nat
  opened : Fds
  scan : Option Nat
  given : List Int
  reported : List Int
  accepted : List Int
  fresh : List Int

namespace PollServer

/-- `NUM` -/
def num : Nat := 10000

/-- An entry that is not used, as `main` leaves it. -/
def freeFd : PollFd := { fd := -1, events := 0, revents := 0 }

/-- `main` up to its loop. -/
def main (opened : Fds) (argc : Nat) (a : SetupAnswers) : Except Halt PollServer := do
  let (opened, listenSock) ← setup opened argc a
  return {
    listenSock := listenSock
    arr := (List.replicate num freeFd).set 0
      { freeFd with fd := listenSock, events := freeFd.events ||| pollIn }
    n := 1
    opened := opened
    scan := none
    given := []
    reported := []
    accepted := []
    fresh := [] }

/-- The loop over `arr` in front of `poll`, from the entry `i` on. -/
def recount (n i : Nat) : List PollFd → Nat
  | [] => n
  | e :: rest => recount (if e.fd ≠ -1 then max n (i + 1) else n) (i + 1) rest

/-- The `n` with which `poll` is called next. -/
def nfds (st : PollServer) : Nat := recount st.n 0 st.arr

/-- `poll` writes the `revents` of the first `n` entries. -/
def writeRevents (n : Nat) (revents : Nat → UInt16) (arr : List PollFd) : List PollFd :=
  arr.mapIdx fun i e => if i < n then { e with revents := revents i } else e

/-- The answer of `poll`: a failure, a timeout, or the `revents` of the entries. -/
inductive PollResult where
  | err (e : Errno)
  | timeout
  | ready (revents : Nat → UInt16)

/-- The descriptors of the first `n` entries that are used. -/
def used (n : Nat) (arr : List PollFd) : List Int :=
  ((arr.take n).filter fun e => decide (e.fd ≠ -1)).map PollFd.fd

/-- The descriptors of the first `n` entries that are readable by their `revents`. -/
def readable (n : Nat) (arr : List PollFd) : List Int :=
  ((arr.take n).filter fun e => decide (e.revents &&& pollIn ≠ 0)).map PollFd.fd

/-- The head of the event loop. -/
def poll (st : PollServer) (answer : PollResult) : PollServer :=
  let n := st.nfds
  let st := { st with n := n, given := used n st.arr, reported := [], fresh := [] }
  match answer with
  | .err _ => st
  | .timeout => { st with arr := writeRevents n (fun _ => 0) st.arr }
  | .ready revents =>
    let arr := writeRevents n revents st.arr
    { st with arr := arr, reported := readable n arr, scan := some 0 }

/-- What the scan does at an entry. -/
inductive Todo where
  | next
  | accept
  | recv (fd : Int)
  deriving DecidableEq

/-- The tests of the scan at the entry `i`. -/
def todo (st : PollServer) (i : Nat) : Todo :=
  let e := st.arr.getD i freeFd
  if e.fd ≠ -1 ∧ e.revents &&& pollIn ≠ 0 then
    if e.fd = st.listenSock then .accept else .recv e.fd
  else .next

/-- The loop over `j`: the first entry that is not used gets the new descriptor. -/
def store (newsock : Int) : List PollFd → List PollFd
  | [] => []
  | e :: rest =>
    if e.fd = -1 then { e with fd := newsock, events := e.events ||| pollIn } :: rest
    else e :: store newsock rest

/-- The answer of `Accept` is stored, whatever it is. -/
def acceptEntry (st : PollServer) (answer : AcceptResult) : Option PollServer :=
  match Multiplex.accept st.opened answer with
  | none => none
  | some (opened, newsock) =>
    let new := if 0 ≤ newsock then [newsock] else []
    some { st with
      opened := opened
      arr := store newsock st.arr
      accepted := st.accepted ++ new
      fresh := st.fresh ++ new }

/-- The connection at the entry `i` is read, and closed if that fails or finds the end. -/
def recvEntry (st : PollServer) (i : Nat) (fd : Int) (answer : RecvResult) : PollServer :=
  match answer with
  | .ok (_ :: _) => st
  | .ok [] | .err _ => { st with
      opened := st.opened.close fd
      arr := st.arr.set i { st.arr.getD i freeFd with fd := -1 } }

/-- What the calls of a step answer. -/
inductive Input where
  | poll (answer : PollResult)
  | entry (accept : AcceptResult) (recv : RecvResult)

/-- One step of the event loop. -/
def step (st : PollServer) : Input → Option PollServer
  | .poll answer =>
    match st.scan with
    | none => some (st.poll answer)
    | some _ => none
  | .entry accept recv =>
    match st.scan with
    | none => none
    | some i =>
      if i < st.n then
        let st := { st with scan := some (i + 1) }
        match st.todo i with
        | .next => some st
        | .accept => st.acceptEntry accept
        | .recv fd => some (st.recvEntry i fd recv)
      else some { st with scan := none }

/-- The servers that enter the event loop. -/
def Started (st : PollServer) : Prop := ∃ opened argc a, main opened argc a = .ok st

end PollServer

end SystemCallLearn.Multiplex
