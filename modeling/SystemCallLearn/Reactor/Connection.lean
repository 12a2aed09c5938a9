import SystemCallLearn.Reactor.Service

/-!
# One connection

The two buffers of a connection under any sequence of `Recver` and `Sender` calls, with every answer
the kernel may give to each of them. `errno` and the contents of the receive buffer are what the
rest of the process left there, so each call brings its own.
-/

namespace SystemCallLearn.Reactor

open SystemCallLearn.Posix

/-- The buffers of a connection, whether its error handler has been called (the `Event` is deleted
    then), and as ghosts: the requests parsed, the bytes appended to `outbuffer` and the bytes
    accepted by the kernel, each in order. -/
structure Conn where
  inbuffer : Bytes
  outbuffer : Bytes
  closed : Bool
  parsed : List Bytes
  appended : Bytes
  accepted : List (Option UInt8)
  deriving DecidableEq

/-- A connection just accepted. -/
def Conn.new : Conn where
  inbuffer := []
  outbuffer := []
  closed := false
  parsed := []
  appended := []
  accepted := []

/-- A call of a handler of the connection. -/
inductive ConnOp where
  | recver (errno : Errno) (frame : Frame) (answers : List RecvResult)
  | sender (errno : Errno) (answers : List SendResult)

/-- The connection after the call, once the call has returned. -/
def Conn.step (c : Conn) (op : ConnOp) : Option Conn :=
  if c.closed then none
  else match op with
    | .recver errno frame answers =>
      (recver errno frame c.inbuffer c.outbuffer answers).map fun r => { c with
        inbuffer := r.inbuffer
        outbuffer := r.outbuffer
        closed := decide (r.next = .errer)
        parsed := c.parsed ++ r.tokens
        appended := c.appended ++ r.outbuffer.drop c.outbuffer.length }
    | .sender errno answers =>
      (senderCore errno c.outbuffer answers).map fun r => { c with
        outbuffer := r.outbuffer
        closed := decide (r.next = .errer)
        accepted := c.accepted ++ r.accepted c.outbuffer }

end SystemCallLearn.Reactor
