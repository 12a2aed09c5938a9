import SystemCallLearn.Multiplex.SelectServer

/-!
# `select.cc`

The server of `select_server.cc` with a table as long as an `fd_set` has bits: `listen_sock` is
added to `rfds` once more, and a failed `recv` changes nothing. `FD_SET` and `FD_ISSET` index an
`fd_set` with a descriptor and do not check it, so every descriptor passed to them is recorded. The
list that models the set holds any descriptor; in the program a call with one from 1024 on is
undefined.

`Sock::Accept` is called with a second argument here, which `Sock.hpp` does not have.
-/

namespace SystemCallLearn.Multiplex

open SystemCallLearn.Posix

/-- The server, with the descriptors passed to `FD_SET` and `FD_ISSET` so far as a ghost. -/
structure Select extends SelectServer where
  passed : List Int

namespace Select

/-- `NUM`, the number of bits of an `fd_set`. -/
def num : Nat := 1024

/-- `main` up to its loop. -/
def main (opened : Fds) (argc : Nat) (a : SetupAnswers) : Except Halt Select := do
  let (opened, listenSock) ← setup opened argc a
  return {
    listenSock := listenSock
    fdArray := (List.replicate num (-1)).set 0 listenSock
    rfds := []
    opened := opened
    scan := none
    given := []
    accepted := []
    fresh := []
    passed := [] }

/-- `max_fd`, and the descriptors that `FD_SET` is called with in front of `select`. -/
def sets (st : Select) : Int × List Int :=
  let (maxFd, rfds) := SelectServer.collect (st.fdArray.getD 0 (-1)) [] st.fdArray
  (maxFd, rfds ++ [st.listenSock])

/-- The head of the event loop. -/
def select (st : Select) (answer : SelectServer.SelectResult) : Select :=
  let (maxFd, rfds) := st.sets
  let st := { st with
    given := SelectServer.examined (maxFd + 1) rfds
    fresh := []
    passed := st.passed ++ rfds }
  match answer with
  | .err _ => st
  | .timeout => { st with rfds := [] }
  | .ready rfds => { st with rfds := rfds, scan := some 0 }

/-- `FD_ISSET(fd_array[i], &rfds)`, if the entry is used. -/
def isset (st : Select) (i : Nat) : List Int :=
  let fd := st.fdArray.getD i (-1)
  if fd = -1 then [] else [fd]

/-- The connection at the entry `i` is read, and closed at its end. -/
def recvEntry (st : Select) (i : Nat) (fd : Int) (answer : RecvResult) : Select :=
  match answer with
  | .ok (_ :: _) | .err _ => st
  | .ok [] => { st with opened := st.opened.close fd, fdArray := st.fdArray.set i (-1) }

/-- One step of the event loop. -/
def step (st : Select) : SelectServer.Input → Option Select
  | .select answer =>
    match st.scan with
    | none => some (st.select answer)
    | some _ => none
  | .entry accept recv =>
    match st.scan with
    | none => none
    | some i =>
      if i < num then
        let st := { st with scan := some (i + 1), passed := st.passed ++ st.isset i }
        match st.todo i with
        | .next => some st
        | .accept =>
          (st.acceptEntry accept).map fun server => { st with toSelectServer := server }
        | .recv fd => some (st.recvEntry i fd recv)
      else some { st with scan := none }

end Select

end SystemCallLearn.Multiplex
