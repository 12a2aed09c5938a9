import SystemCallLearn.Reactor.Reactor

/-!
# The server: the callbacks, `Dispatcher` and `main`

`Accepter.hpp`, the callbacks of `Service.hpp` on their `Event`s, and `epoll_server.cc`. The loop of
`main` around `Dispatcher` is a machine (`Loop.step`) whose steps are the call of `epoll_wait` and
the read block and the write block of each entry that it reported.

`Accepter`, `Recver`, `Sender` and `Errorer` are declared to return an `int`, and each can reach its
end without a return statement; that is taken as a return. A `send` to a connection that is gone
answers `EPIPE` here: the `SIGPIPE` that comes with it, and ends a process that does not ignore it,
is left out.
-/

namespace SystemCallLearn.Reactor

open SystemCallLearn.Posix

/-! ## The callbacks -/

/-- The answer of `accept`; a success comes with the answer of the `epoll_ctl` for it. -/
inductive AcceptResult where
  | ok (fd : Int) (add : Option Errno)
  | err (e : Errno)
  deriving DecidableEq

/-- What the system calls of one callback answer, and what the buffer of `RecverCore` holds. -/
structure Answers where
  accept : List AcceptResult
  recv : List RecvResult
  send : List SendResult
  mod : Option Errno
  frame : Frame

/-- `Errorer(evp)` -/
def Server.errorer (s : Server) (evp : EventPtr) : Exec Server := do
  let ev ← s.deref evp
  s.through ev.R
  s.deleteEvent evp

/-- How `Recver` and `Sender` end. -/
def Server.finish (s : Server) (evp : EventPtr) (next : Next) (mod : Option Errno) :
    Exec Server := do
  let ev ← s.deref evp
  match next with
  | .nothing => return s
  | .errer =>
    match ev.errer with
    | none => return s
    | some .errorer => s.errorer evp
  | .enableRW read write =>
    s.through ev.R
    return (s.enableRW ev.sock read write mod).1

/-- `Recver(evp)` -/
def Server.recver (s : Server) (evp : EventPtr) (a : Answers) : Exec Server := do
  let ev ← s.deref evp
  match Reactor.recver s.errno a.frame ev.inbuffer ev.outbuffer a.recv with
  | none => throw .running
  | some r =>
    let s := s.store evp { ev with inbuffer := r.inbuffer, outbuffer := r.outbuffer }
    let appended := if r.outbuffer = ev.outbuffer then [] else [Action.append evp]
    let s := { s with errno := r.errno, log := appended ++ s.log }
    s.finish evp r.next a.mod

/-- `Sender(evp)` -/
def Server.sender (s : Server) (evp : EventPtr) (a : Answers) : Exec Server := do
  let ev ← s.deref evp
  match senderCore s.errno ev.outbuffer a.send with
  | none => throw .running
  | some r =>
    let s := s.store evp { ev with outbuffer := r.outbuffer }
    let sends := (r.calls.map (Action.send ev.sock ev.outbuffer)).reverse
    let s := { s with errno := r.errno, log := sends ++ s.log }
    s.finish evp r.next a.mod

/-- `Sock::Accept(listen_sock)`. The kernel gives a descriptor that is not open. -/
def Server.accept (s : Server) : AcceptResult → Exec (Server × Int)
  | .ok fd _ => if 0 ≤ fd ∧ s.opened fd = false then .ok (s.openSock fd, fd) else .error .invalid
  | .err e => .ok ({ s with errno := e }, -1)

/-- The answer of the `epoll_ctl` that follows. -/
def AcceptResult.add : AcceptResult → Option Errno
  | .ok _ add => add
  | .err _ => none

/-- The `Event` of an accepted connection. -/
def connEvent (sock : Int) (R : Option ReactorPtr) : Event :=
  { Event.init with sock := sock, R := R }.registerCallBack (some .recver) (some .sender)
    (some .errorer)

/-- `Accepter(evp)` -/
def Server.accepter (s : Server) (evp : EventPtr) : List AcceptResult → Exec Server
  | [] => .error .running
  | a :: rest => do
    let ev ← s.deref evp
    let (s, sock) ← s.accept a
    if sock < 0 then
      return s
    let (s, other) := s.new (connEvent sock ev.R)
    s.through ev.R
    let (s, _) ← s.insertEvent other (epollIn ||| epollEt) a.add
    s.accepter evp rest

/-! ## `Dispatcher` -/

/-- Errors and hang-ups are handed to the read and write callbacks. -/
def convert (revents : UInt32) : UInt32 :=
  let revents := if revents &&& epollErr ≠ 0 then revents ||| (epollIn ||| epollOut) else revents
  if revents &&& epollHup ≠ 0 then revents ||| (epollIn ||| epollOut) else revents

/-- `IsSockOk(sock) && events[sock]->recver` under `revents & EPOLLIN`: the callback to be called
    and its argument. -/
def Server.readCall (s : Server) (rev : EpollEvent) : Exec (Option (ReadCallback × EventPtr)) :=
  if convert rev.events &&& epollIn ≠ 0 then
    match s.events rev.fd with
    | none => .ok none
    | some evp => do
      let ev ← s.deref evp
      return ev.recver.map fun f => (f, evp)
  else .ok none

/-- `IsSockOk(sock) && events[sock]->sender` under `revents & EPOLLOUT`. -/
def Server.writeCall (s : Server) (rev : EpollEvent) : Exec (Option (WriteCallback × EventPtr)) :=
  if convert rev.events &&& epollOut ≠ 0 then
    match s.events rev.fd with
    | none => .ok none
    | some evp => do
      let ev ← s.deref evp
      return ev.sender.map fun f => (f, evp)
  else .ok none

/-- The read block of an entry. -/
def Server.readBlock (s : Server) (rev : EpollEvent) (a : Answers) : Exec Server := do
  match ← s.readCall rev with
  | none => return s
  | some (.accepter, evp) => s.accepter evp a.accept
  | some (.recver, evp) => s.recver evp a

/-- The write block of an entry. -/
def Server.writeBlock (s : Server) (rev : EpollEvent) (a : Answers) : Exec Server := do
  match ← s.writeCall rev with
  | none => return s
  | some (.sender, evp) => s.sender evp a

/-- The answer of `epoll_wait`: the descriptors reported, with the events of each, or a failure. -/
inductive WaitResult where
  | ok (reports : List (Int × UInt32))
  | err (e : Errno)
  deriving DecidableEq

/-- `epoll_wait` reports registered descriptors, each at most once, in `NUM` entries at most. Which
    events it reports is left open here, as are the answers of the calls that follow: no more is
    assumed of the kernel than a result says. -/
def Server.Reports (s : Server) (reports : List (Int × UInt32)) : Prop :=
  (reports.map Prod.fst).Nodup ∧ (∀ r ∈ reports, (s.interest r.1).isSome = true) ∧
    reports.length ≤ num

instance (s : Server) (reports : List (Int × UInt32)) : Decidable (s.Reports reports) :=
  inferInstanceAs (Decidable (_ ∧ _ ∧ _))

/-- The entries that `epoll_wait` fills in: an entry has the data with which its descriptor was
    registered. -/
def Server.entries (s : Server) (reports : List (Int × UInt32)) : List EpollEvent :=
  reports.filterMap fun r => (s.interest r.1).map fun e => { events := r.2, fd := e.fd }

/-- The place in the body of the `for` loop of `Dispatcher`. -/
inductive Half where
  | read
  | write
  deriving DecidableEq

/-- The loop of `main`: `revs` are the entries from the current one on, and at its end the next call
    is `epoll_wait`. `snap` is a ghost: `events` when `epoll_wait` returned. -/
structure Loop where
  srv : Server
  revs : List EpollEvent
  half : Half
  snap : Int → Option EventPtr

inductive Input where
  | wait (answer : WaitResult)
  | read (a : Answers)
  | write (a : Answers)

/-- One step of the loop. -/
def Loop.step (st : Loop) : Input → Exec Loop
  | .wait answer =>
    if st.revs = [] then
      match answer with
      | .err e => .ok { st with srv := { st.srv with errno := e } }
      | .ok reports =>
        if st.srv.Reports reports then
          .ok { st with revs := st.srv.entries reports, half := .read, snap := st.srv.events }
        else .error .invalid
    else .error .invalid
  | .read a =>
    match st.revs, st.half with
    | rev :: _, .read => do
      let srv ← st.srv.readBlock rev a
      return { st with srv := srv, half := .write }
    | _, _ => .error .invalid
  | .write a =>
    match st.revs, st.half with
    | rev :: revs, .write => do
      let srv ← st.srv.writeBlock rev a
      return { st with srv := srv, revs := revs, half := .read }
    | _, _ => .error .invalid

/-- The steps of the loop. -/
def Loop.Steps (st : Loop) (i : Input) (st' : Loop) : Prop := st.step i = .ok st'

/-! ## `main` -/

/-- What the system calls of `main` before the loop answer. -/
structure MainAnswers where
  socket : Except Errno Int
  getfl : Option Errno
  setfl : Option Errno
  bind : Option Errno
  listen : Option Errno
  epollCreate : Except Errno Int
  add : Option Errno

/-- The process when `main` is entered: nothing registered, any descriptors open. -/
def Server.boot (this : ReactorPtr) (opened : Int → Bool) (flags : Int → Nat) (errno : Errno) :
    Server where
  this := this
  epfd := -1
  events _ := none
  heap _ := none
  next := 0
  opened := opened
  flags := flags
  interest _ := none
  errno := errno
  log := []

/-- `SetNonBlock(sock)` -/
def Server.setNonBlock (s : Server) (sock : Int) (getfl setfl : Option Errno) : Server :=
  match getfl with
  | some e => { s with errno := e }
  | none =>
    let fl := s.flags sock
    match setfl with
    | some e => { s with errno := e }
    | none => { s with flags := Function.update s.flags sock (fl ||| oNonblock) }

/-- `Sock::Socket()`: the kernel gives a descriptor that is not open. -/
def Server.socket (s : Server) : Except Errno Int → Exec (Server × Int)
  | .error _ => .error (.exit 2)
  | .ok fd => if 0 ≤ fd ∧ s.opened fd = false then .ok (s.openSock fd, fd) else .error .invalid

/-- `Sock::Bind(sock, port)` -/
def Server.bind (s : Server) : Option Errno → Exec Server
  | none => .ok s
  | some _ => .error (.exit 3)

/-- `Sock::Listen(sock)` -/
def Server.listen (s : Server) : Option Errno → Exec Server
  | none => .ok s
  | some _ => .error (.exit 4)

/-- `InitReactor()`. The epoll instance takes a descriptor too. -/
def Server.initReactor (s : Server) : Except Errno Int → Exec Server
  | .error _ => .error (.exit 2)
  | .ok fd =>
    if 0 ≤ fd ∧ s.opened fd = false then .ok { s.openSock fd with epfd := fd } else .error .invalid

/-- The `Event` of the listening socket. -/
def listenEvent (sock : Int) (R : Option ReactorPtr) : Event :=
  { Event.init with sock := sock, R := R }.registerCallBack (some .accepter) none none

/-- `main` up to its loop. -/
def Server.main (s : Server) (argc : Nat) (a : MainAnswers) : Exec Loop :=
  if argc ≠ 2 then .error (.exit 1)
  else do
    let (s, listenSock) ← s.socket a.socket
    let s := s.setNonBlock listenSock a.getfl a.setfl
    let s ← s.bind a.bind
    let s ← s.listen a.listen
    let s ← s.initReactor a.epollCreate
    let (s, evp) := s.new (listenEvent listenSock (some s.this))
    let (s, _) ← s.insertEvent evp (epollIn ||| epollEt) a.add
    return { srv := s, revs := [], half := .read, snap := s.events }

/-- The loops that `main` enters. -/
def Started (st : Loop) : Prop :=
  ∃ this opened flags errno argc a,
    (Server.boot this opened flags errno).main argc a = .ok st

end SystemCallLearn.Reactor
