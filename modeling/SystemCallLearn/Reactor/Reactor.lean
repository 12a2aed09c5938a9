import SystemCallLearn.Reactor.Service
import Mathlib.Logic.Function.Basic

/-!
# `Reactor.hpp`: Events, the registry and the kernel under it

`Server` is the state of the process: the `Reactor` object with its map `events`, the `Event`s on
the heap, and what the kernel keeps (open descriptors, their status flags, the interest list of the
epoll instance). An `Event *` is the number of its allocation, so that an address is never used for
two `Event`s. What a call of the kernel answers is an argument where the state does not decide it.

`InsertEvent`, `EnableRW` and the callbacks have a return type and flow off their end without a
return statement, which C++ leaves undefined. Here such a call returns to its caller: without a
value from `InsertEvent` and `EnableRW` (`none`), and with one that `Dispatcher` does not look at
from a callback.
-/

namespace SystemCallLearn.Reactor

open SystemCallLearn.Posix

/-! ## The data -/

abbrev EventPtr := Nat

abbrev ReactorPtr := Nat

/-- The functions registered as `recver`. -/
inductive ReadCallback where
  | accepter
  | recver
  deriving DecidableEq

/-- The function registered as `sender`. -/
inductive WriteCallback where
  | sender
  deriving DecidableEq

/-- The function registered as `errer`. -/
inductive ErrCallback where
  | errorer
  deriving DecidableEq

/-- `class Event`; `none` is a null pointer. -/
structure Event where
  sock : Int
  inbuffer : Bytes
  outbuffer : Bytes
  recver : Option ReadCallback
  sender : Option WriteCallback
  errer : Option ErrCallback
  R : Option ReactorPtr
  deriving DecidableEq

/-- `Event()` -/
def Event.init : Event where
  sock := -1
  inbuffer := []
  outbuffer := []
  recver := none
  sender := none
  errer := none
  R := none

/-- `RegisterCallBack(_recver, _sender, _errer)`. -/
def Event.registerCallBack (ev : Event) (recver : Option ReadCallback)
    (sender : Option WriteCallback) (errer : Option ErrCallback) : Event :=
  { ev with recver := recver, sender := sender, errer := errer }

def epollIn : UInt32 := 0x001

def epollOut : UInt32 := 0x004

def epollErr : UInt32 := 0x008

def epollHup : UInt32 := 0x010

def epollEt : UInt32 := 0x80000000

/-- `NUM`, the length of `revs`. -/
def num : Nat := 64

/-- `struct epoll_event` with `data.fd`. -/
structure EpollEvent where
  events : UInt32
  fd : Int
  deriving DecidableEq

/-- What is recorded of a run: appends to the output buffer of an `Event`, calls of `send` with the
    buffer they are offered, calls of `epoll_ctl` with `EPOLL_CTL_MOD` and whether they succeed, and
    deletions. -/
inductive Action where
  | append (evp : EventPtr)
  | send (sock : Int) (outbuffer : Bytes) (call : SendCall)
  | mod (sock : Int) (mask : UInt32) (done : Bool)
  | delete (evp : EventPtr)
  deriving DecidableEq

/-- The process. `log` is a ghost with the last action first. -/
structure Server where
  this : ReactorPtr
  epfd : Int
  events : Int → Option EventPtr
  heap : EventPtr → Option Event
  next : EventPtr
  opened : Int → Bool
  flags : Int → Nat
  interest : Int → Option EpollEvent
  errno : Errno
  log : List Action

/-- Why a function does not return normally: the answers end before it does, memory is used that is
    not there, an answer that the kernel does not give, or `exit`. -/
inductive Stop where
  | running
  | fault
  | invalid
  | exit (code : Nat)
  deriving DecidableEq

abbrev Exec := Except Stop

@[simp] theorem Exec.ok_bind {α β : Type} (a : α) (f : α → Exec β) :
    (Except.ok a >>= f) = f a := rfl

@[simp] theorem Exec.error_bind {α β : Type} (e : Stop) (f : α → Exec β) :
    (Except.error e >>= f) = .error e := rfl

theorem Exec.bind_eq_ok {α β : Type} {x : Exec α} {f : α → Exec β} {b : β} :
    (x >>= f) = .ok b ↔ ∃ a, x = .ok a ∧ f a = .ok b := by
  cases x <;> simp

@[simp] theorem Exec.pure_eq {α : Type} (a : α) : (pure a : Exec α) = .ok a := rfl

/-! ## Memory -/

/-- `*evp`: a null or deleted `Event` faults. -/
def Server.deref (s : Server) (evp : EventPtr) : Exec Event :=
  match s.heap evp with
  | none => .error .fault
  | some ev => .ok ev

/-- `*evp = ev` -/
def Server.store (s : Server) (evp : EventPtr) (ev : Event) : Server :=
  { s with heap := Function.update s.heap evp (some ev) }

/-- `new Event` -/
def Server.new (s : Server) (ev : Event) : Server × EventPtr :=
  ({ s with heap := Function.update s.heap s.next (some ev), next := s.next + 1 }, s.next)

/-- `delete evp`: a second one faults. -/
def Server.delete (s : Server) (evp : EventPtr) : Exec Server :=
  match s.heap evp with
  | none => .error .fault
  | some _ => .ok { s with
      heap := Function.update s.heap evp none
      log := .delete evp :: s.log }

/-- `evp->R->...`: the call goes to this `Reactor`, the only one there is. -/
def Server.through (s : Server) (R : Option ReactorPtr) : Exec Unit :=
  if R = some s.this then .ok () else .error .fault

/-! ## The kernel -/

/-- `O_RDWR`, the flags of a new socket. -/
def oRdwr : Nat := 2

def oNonblock : Nat := 2048

/-- A descriptor is in non-blocking mode. -/
def Server.NonBlocking (s : Server) (fd : Int) : Prop := s.flags fd &&& oNonblock ≠ 0

instance (s : Server) (fd : Int) : Decidable (s.NonBlocking fd) :=
  inferInstanceAs (Decidable (_ ≠ _))

/-- The operation of `epoll_ctl` with its `struct epoll_event`. -/
inductive CtlOp where
  | add (event : EpollEvent)
  | mod (event : EpollEvent)
  | del
  deriving DecidableEq

/-- What the interest list holds for the descriptor afterwards. -/
def CtlOp.entry : CtlOp → Option EpollEvent
  | .add event => some event
  | .mod event => some event
  | .del => none

/-- The failure of `epoll_ctl`, if any: `EBADF` for a closed descriptor, `EEXIST` and `ENOENT` by
    the interest list, and otherwise what the kernel answers. Deleting a registered descriptor
    succeeds. -/
def Server.ctlError (s : Server) (op : CtlOp) (fd : Int) (answer : Option Errno) : Option Errno :=
  if s.opened fd then
    match op, s.interest fd with
    | .add _, some _ => some .eexist
    | .add _, none => answer
    | .mod _, none => some .enoent
    | .mod _, some _ => answer
    | .del, none => some .enoent
    | .del, some _ => none
  else some .ebadf

/-- `epoll_ctl(epfd, op, fd, &ev)`: true for 0, false for -1. -/
def Server.epollCtl (s : Server) (op : CtlOp) (fd : Int) (answer : Option Errno) : Server × Bool :=
  match s.ctlError op fd answer with
  | some e => ({ s with errno := e }, false)
  | none => ({ s with interest := Function.update s.interest fd op.entry }, true)

/-- A system call that returns the new socket `fd`, in blocking mode. -/
def Server.openSock (s : Server) (fd : Int) : Server :=
  { s with
    opened := Function.update s.opened fd true
    flags := Function.update s.flags fd oRdwr }

/-- `close(fd)`: a closed descriptor leaves the interest list. -/
def Server.close (s : Server) (fd : Int) : Server :=
  if s.opened fd then
    { s with
      opened := Function.update s.opened fd false
      interest := Function.update s.interest fd none }
  else { s with errno := .ebadf }

/-! ## The `Reactor` -/

/-- `InsertEvent(evp, evs)`. There is no return statement behind the success. -/
def Server.insertEvent (s : Server) (evp : EventPtr) (evs : UInt32) (answer : Option Errno) :
    Exec (Server × Option Bool) := do
  let ev ← s.deref evp
  let (s, done) := s.epollCtl (.add { events := evs, fd := ev.sock }) ev.sock answer
  if !done then
    return (s, some false)
  -- events.insert keeps the value of a key that is there
  match s.events ev.sock with
  | none => return ({ s with events := Function.update s.events ev.sock (some evp) }, none)
  | some _ => return (s, none)

/-- `DeleteEvent(evp)` -/
def Server.deleteEvent (s : Server) (evp : EventPtr) : Exec Server := do
  let ev ← s.deref evp
  let sock := ev.sock
  match s.events sock with
  | none => return s
  | some _ =>
    let (s, _) := s.epollCtl .del sock none
    let s := { s with events := Function.update s.events sock none }
    let s := s.close sock
    s.delete evp

/-- The mask that `EnableRW` asks for. -/
def enableMask (read write : Bool) : UInt32 :=
  epollEt ||| (if read then epollIn else 0) ||| (if write then epollOut else 0)

/-- `EnableRW(sock, enable_read, enable_write)`. There is no return statement behind the success. -/
def Server.enableRW (s : Server) (sock : Int) (read write : Bool) (answer : Option Errno) :
    Server × Option Bool :=
  let mask := enableMask read write
  let (s, done) := s.epollCtl (.mod { events := mask, fd := sock }) sock answer
  let s := { s with log := .mod sock mask done :: s.log }
  if !done then (s, some false) else (s, none)

end SystemCallLearn.Reactor
