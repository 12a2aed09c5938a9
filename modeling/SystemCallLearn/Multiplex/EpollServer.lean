import SystemCallLearn.Multiplex.Sock
import SystemCallLearn.Reactor.Reactor

/-!
# `epoll_server(完善版).cc`

The loop of `main` is a machine: at its head `epoll_wait` fills `revs`, then each step handles one
entry. The interest list of the kernel is the server's only table. Nothing that `epoll_create` and
`epoll_ctl` return is looked at, and a connection is taken out of the epoll instance after it has
been closed.
-/

namespace SystemCallLearn.Multiplex

open SystemCallLearn.Posix SystemCallLearn.Reactor

/-- The server: `revs` are the entries from the current one on, and at their end the next call is
    `epoll_wait`. Ghosts: the descriptors that the last `epoll_wait` reported readable, and those
    accepted since. -/
structure EpollServer where
  listenSock : Int
  epfd : Int
  opened : Fds
  interest : Int → Option EpollEvent
  revs : List EpollEvent
  reported : List Int
  fresh : List Int

namespace EpollServer

/-- `NUM` -/
def num : Nat := 64

/-- The failure of `epoll_ctl(epfd, op, fd, …)`, if any. -/
def ctlError (st : EpollServer) (op : CtlOp) (fd : Int) (answer : Option Errno) : Option Errno :=
  if st.epfd = -1 ∨ st.opened fd = false then some .ebadf
  else
    match op, st.interest fd with
    | .add _, some _ => some .eexist
    | .add _, none => answer
    | .mod _, none => some .enoent
    | .mod _, some _ => answer
    | .del, none => some .enoent
    | .del, some _ => none

/-- `epoll_ctl(epfd, op, fd, …)`, whose result is not looked at. -/
def epollCtl (st : EpollServer) (op : CtlOp) (fd : Int) (answer : Option Errno) : EpollServer :=
  match st.ctlError op fd answer with
  | some _ => st
  | none => { st with interest := Function.update st.interest fd op.entry }

/-- `close(fd)`: a closed descriptor leaves the interest list. -/
def close (st : EpollServer) (fd : Int) : EpollServer :=
  { st with opened := st.opened.close fd, interest := Function.update st.interest fd none }

/-- `epoll_create(SIZE)`: the descriptor of the instance, or -1. -/
def epollCreate (opened : Fds) : Except Errno Int → Except Halt (Fds × Int)
  | .error _ => .ok (opened, -1)
  | .ok fd =>
    match opened.create fd with
    | none => .error .invalid
    | some opened => .ok (opened, fd)

/-- What is asked for every descriptor. -/
def event (fd : Int) : EpollEvent := { events := epollIn, fd := fd }

/-- `main` up to its loop. -/
def main (opened : Fds) (argc : Nat) (a : SetupAnswers) (create : Except Errno Int)
    (add : Option Errno) : Except Halt EpollServer := do
  let (opened, listenSock) ← setup opened argc a
  let (opened, epfd) ← epollCreate opened create
  let st : EpollServer :=
    { listenSock := listenSock
      epfd := epfd
      opened := opened
      interest := fun _ => none
      revs := []
      reported := []
      fresh := [] }
  return st.epollCtl (.add (event listenSock)) listenSock add

/-- The answer of `epoll_wait`: a failure, or the descriptors reported with the events of each, none
    after a timeout. -/
inductive WaitResult where
  | err (e : Errno)
  | ok (reports : List (Int × UInt32))
  deriving DecidableEq

/-- `epoll_wait` reports registered descriptors, each at most once, in `NUM` entries at most. -/
def Reports (st : EpollServer) (reports : List (Int × UInt32)) : Prop :=
  (reports.map Prod.fst).Nodup ∧ (∀ r ∈ reports, (st.interest r.1).isSome = true) ∧
    reports.length ≤ num

instance (st : EpollServer) (reports : List (Int × UInt32)) : Decidable (st.Reports reports) :=
  inferInstanceAs (Decidable (_ ∧ _ ∧ _))

/-- The entries that `epoll_wait` fills in, with the data of the registration. -/
def entries (st : EpollServer) (reports : List (Int × UInt32)) : List EpollEvent :=
  reports.filterMap fun r => (st.interest r.1).map fun e => { events := r.2, fd := e.fd }

/-- The descriptors of the entries that are readable. -/
def readable (revs : List EpollEvent) : List Int :=
  (revs.filter fun rev => decide (rev.events &&& epollIn ≠ 0)).map EpollEvent.fd

/-- What the loop does with an entry. -/
inductive Todo where
  | next
  | accept
  | recv (fd : Int)
  deriving DecidableEq

/-- The tests on an entry. Nothing is done for `EPOLLOUT` and for errors alone. -/
def todo (st : EpollServer) (rev : EpollEvent) : Todo :=
  if rev.events &&& epollIn ≠ 0 then
    if rev.fd = st.listenSock then .accept else .recv rev.fd
  else .next

/-- A new connection is handed to the epoll instance. -/
def acceptEntry (st : EpollServer) (answer : AcceptResult) (add : Option Errno) :
    Option EpollServer :=
  match Multiplex.accept st.opened answer with
  | none => none
  | some (opened, fd) =>
    if 0 ≤ fd then
      some ({ st with opened := opened, fresh := st.fresh ++ [fd] }.epollCtl (.add (event fd)) fd
        add)
    else some st

/-- A connection is read; if that fails or finds the end, it is closed and then deleted from the
    epoll instance. -/
def recvEntry (st : EpollServer) (sock : Int) (answer : RecvResult) : EpollServer :=
  match answer with
  | .ok (_ :: _) => st
  | .ok [] | .err _ => (st.close sock).epollCtl .del sock none

/-- What the calls of a step answer. -/
inductive Input where
  | wait (answer : WaitResult)
  | entry (accept : AcceptResult) (add : Option Errno) (recv : RecvResult)

/-- One step of the event loop. An invalid epoll instance only has failures to report. -/
def step (st : EpollServer) : Input → Option EpollServer
  | .wait answer =>
    match st.revs, answer with
    | [], .err _ => some { st with reported := [], fresh := [] }
    | [], .ok reports =>
      if st.epfd ≠ -1 ∧ st.Reports reports then
        let revs := st.entries reports
        some { st with revs := revs, reported := readable revs, fresh := [] }
      else none
    | _ :: _, _ => none
  | .entry accept add recv =>
    match st.revs with
    | [] => none
    | rev :: revs =>
      let st := { st with revs := revs }
      match st.todo rev with
      | .next => some st
      | .accept => st.acceptEntry accept add
      | .recv fd => some (st.recvEntry fd recv)

/-- The servers that enter the event loop. -/
def Started (st : EpollServer) : Prop :=
  ∃ opened argc a create add, main opened argc a create add = .ok st

end EpollServer

end SystemCallLearn.Multiplex
