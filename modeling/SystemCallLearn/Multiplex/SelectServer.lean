import SystemCallLearn.Multiplex.Sock

/-!
# `select_server.cc`

The loop of `main` is a machine. At its head the table `fd_array` is copied into `rfds` and `select`
is called; then the scan looks at one entry of the table in each step. An `fd_set` is the list of
the descriptors in it, and any descriptor can be a member. `FD_SET` and `FD_ISSET` are undefined for
a descriptor from `FD_SETSIZE` (1024) on; the 128 entries of the table keep an ordinary process below
it, and of the program the model speaks only there.

Only `select` knows whether there is something to read, so what the scan does at an entry is a
question about `rfds` (`todo`), and a call of `recv` is a step at an entry whose answer is `recv`.
-/

namespace SystemCallLearn.Multiplex

open SystemCallLearn.Posix

/-- The server: `scan` is the `i` of the loop over the entries, and `none` at the head of the event
    loop. Ghosts: the descriptors that the last `select` was given, all descriptors accepted so far,
    and those accepted since that `select`. -/
structure SelectServer where
  listenSock : Int
  fdArray : List Int
  rfds : List Int
  opened : Fds
  scan : Option Nat
  given : List Int
  accepted : List Int
  fresh : List Int

namespace SelectServer

/-- `NUM` -/
def num : Nat := 128

/-- `main` up to its loop. -/
def main (opened : Fds) (argc : Nat) (a : SetupAnswers) : Except Halt SelectServer := do
  let (opened, listenSock) ← setup opened argc a
  return {
    listenSock := listenSock
    fdArray := (List.replicate num (-1)).set 0 listenSock
    rfds := []
    opened := opened
    scan := none
    given := []
    accepted := []
    fresh := [] }

/-- The loop over `fd_array` in front of `select`: `max_fd` and `rfds`. -/
def collect (maxFd : Int) (rfds : List Int) : List Int → Int × List Int
  | [] => (maxFd, rfds)
  | fd :: rest =>
    if fd = -1 then collect maxFd rfds rest
    else collect (if maxFd < fd then fd else maxFd) (rfds ++ [fd]) rest

/-- The descriptors that `select(nfds, &rfds, …)` looks at. -/
def examined (nfds : Int) (rfds : List Int) : List Int := rfds.filter fun fd => decide (fd < nfds)

/-- The answer of `select`: a failure, a timeout, or the set that it leaves in `rfds`. -/
inductive SelectResult where
  | err (e : Errno)
  | timeout
  | ready (rfds : List Int)
  deriving DecidableEq

/-- The descriptors that the next `select` is given. -/
def gives (st : SelectServer) : List Int :=
  let (maxFd, rfds) := collect (st.fdArray.getD 0 (-1)) [] st.fdArray
  examined (maxFd + 1) rfds

/-- The head of the event loop. -/
def select (st : SelectServer) (answer : SelectResult) : SelectServer :=
  let st := { st with given := st.gives, fresh := [] }
  match answer with
  | .err _ => st
  | .timeout => { st with rfds := [] }
  | .ready rfds => { st with rfds := rfds, scan := some 0 }

/-- What the scan does at an entry. -/
inductive Todo where
  | next
  | accept
  | recv (fd : Int)
  deriving DecidableEq

/-- The tests of the scan at the entry `i`. -/
def todo (st : SelectServer) (i : Nat) : Todo :=
  let fd := st.fdArray.getD i (-1)
  if fd = -1 then .next
  else if fd ∈ st.rfds then
    if fd = st.listenSock then .accept else .recv fd
  else .next

/-- The loop over `pos`: the first entry from 1 on that is not used. -/
def freePos (fdArray : List Int) : Option Nat := ((fdArray.drop 1).findIdx? (· = -1)).map (· + 1)

/-- A new connection is put into the table, or closed if there is no place. -/
def acceptEntry (st : SelectServer) (answer : AcceptResult) : Option SelectServer :=
  match Multiplex.accept st.opened answer with
  | none => none
  | some (opened, sock) =>
    if 0 ≤ sock then
      let st := { st with
        opened := opened
        accepted := st.accepted ++ [sock]
        fresh := st.fresh ++ [sock] }
      match freePos st.fdArray with
      | some pos => some { st with fdArray := st.fdArray.set pos sock }
      | none => some { st with opened := st.opened.close sock }
    else some st

/-- The connection at the entry `i` is read, and closed if that fails or finds the end. -/
def recvEntry (st : SelectServer) (i : Nat) (fd : Int) (answer : RecvResult) : SelectServer :=
  match answer with
  | .ok (_ :: _) => st
  | .ok [] | .err _ => { st with opened := st.opened.close fd, fdArray := st.fdArray.set i (-1) }

/-- What the calls of a step answer. -/
inductive Input where
  | select (answer : SelectResult)
  | entry (accept : AcceptResult) (recv : RecvResult)

/-- One step of the event loop. -/
def step (st : SelectServer) : Input → Option SelectServer
  | .select answer =>
    match st.scan with
    | none => some (st.select answer)
    | some _ => none
  | .entry accept recv =>
    match st.scan with
    | none => none
    | some i =>
      if i < num then
        let st := { st with scan := some (i + 1) }
        match st.todo i with
        | .next => some st
        | .accept => st.acceptEntry accept
        | .recv fd => some (st.recvEntry i fd recv)
      else some { st with scan := none }

/-- The servers that enter the event loop. -/
def Started (st : SelectServer) : Prop := ∃ opened argc a, main opened argc a = .ok st

end SelectServer

end SystemCallLearn.Multiplex
