import SystemCallLearn.Lib.Lts
import SystemCallLearn.Lib.Mail
import SystemCallLearn.Net.UdpClient
import Mathlib.Logic.Function.Basic

/-!
# The UDP server and its clients

Any number of clients talk to one server over a network that may lose, delay, reorder and duplicate
datagrams. A client is known to the server by the address its datagrams come from, of which each
client has its own.
-/

namespace SystemCallLearn.Net

open SystemCallLearn.Posix
open SystemCallLearn.Lib
open SystemCallLearn.Net.UdpServer

/-- `string str = "hello client";` -/
def Udp.helloClient : Bytes := [104, 101, 108, 108, 111, 32, 99, 108, 105, 101, 110, 116]

/-- Where the server is: blocked in `recvfrom`, or at `sendto` with the address it goes to, which is
    unset after a failure of `recvfrom`. -/
inductive Udp.Point (ι : Type) where
  | recvfrom
  | sendto (peer : Option ι)
  deriving DecidableEq

/-- The server, with two ghosts: the answers of `recvfrom`, and the texts it has printed behind
    `client say : `. -/
structure Udp.Server (ι : Type) where
  point : Udp.Point ι
  buffer : Buffer
  answers : List (RecvfromResult ι)
  clientSay : List (Option Bytes)

/-- The server, the clients, and what is in flight between them: the requests by their sender, the
    replies by their receiver. -/
structure Udp (ι : Type) where
  server : Udp.Server ι
  client : ι → UdpClient
  requests : List (ι × Bytes)
  replies : List (ι × Bytes)

namespace Udp

variable {ι : Type}

/-- Everything has been started, and the buffers hold what they hold. -/
def start (server : Buffer) (client : ι → Buffer) : Udp ι where
  server := { point := .recvfrom, buffer := server, answers := [], clientSay := [] }
  client := fun i => .start (client i)
  requests := []
  replies := []

/-- `recvfrom` answers the server, and the buffer is printed. -/
def Server.recvfrom (s : Server ι) (answer : RecvfromResult ι) : Option (Server ι) :=
  match s.point with
  | .sendto _ => none
  | .recvfrom =>
    let buffer := s.buffer.recvfrom answer
    some { s with
      point := .sendto answer.peer, buffer := buffer, answers := s.answers ++ [answer],
      clientSay := s.clientSay ++ [buffer.text] }

/-- What happens next. A client's `sendto` and its `recvfrom`, the server's `recvfrom` and its
    `sendto`, each with what comes of the call, and what the network does to a request or a
    reply. -/
inductive Act (ι : Type) where
  | send (i : ι) (message : Bytes) (sent : Bool)
  | receive (i : ι) (payload : Bytes)
  | receiveFails (i : ι) (e : Errno)
  | hear (i : ι) (payload : Bytes)
  | hearFails (e : Errno)
  | reply (target : Option ι)
  | loseRequest (i : ι) (payload : Bytes)
  | loseReply (i : ι) (payload : Bytes)
  | copyRequest (i : ι) (payload : Bytes)
  | copyReply (i : ι) (payload : Bytes)

variable [DecidableEq ι]

/-- The client `i` becomes `c`. -/
def withClient (s : Udp ι) (i : ι) (c : UdpClient) : Udp ι :=
  { s with client := Function.update s.client i c }

/-- The client `i` sends a message, which gets into the network or not. -/
def send (s : Udp ι) (i : ι) (message : Bytes) (sent : Bool) : Option (Udp ι) :=
  ((s.client i).sendto message).map fun c =>
    { s.withClient i c with
      requests := s.requests ++ (if sent = true then [(i, message)] else []) }

/-- A reply arrives at the client `i`. -/
def receive (s : Udp ι) (i : ι) (payload : Bytes) : Option (Udp ι) :=
  (taken s.replies (i, payload)).bind fun replies =>
    ((s.client i).recvfrom (.ok payload ())).map fun c =>
      { s.withClient i c with replies := replies }

/-- A request of the client `i` arrives at the server. -/
def hear (s : Udp ι) (i : ι) (payload : Bytes) : Option (Udp ι) :=
  (taken s.requests (i, payload)).bind fun requests =>
    (s.server.recvfrom (.ok payload i)).map fun server =>
      { s with server := server, requests := requests }

/-- The server sends its reply, which gets into the network or not. An unset address may be that of
    any client. -/
def reply (s : Udp ι) (target : Option ι) : Option (Udp ι) :=
  match s.server.point with
  | .recvfrom => none
  | .sendto peer =>
    if peer = none ∨ target = none ∨ target = peer then
      some { s with
        server := { s.server with point := .recvfrom },
        replies := s.replies ++ target.toList.map fun i => (i, helloClient) }
    else none

/-- One step. -/
def step (s : Udp ι) : Act ι → Option (Udp ι)
  | .send i message sent => s.send i message sent
  | .receive i payload => s.receive i payload
  | .receiveFails i e =>
    ((s.client i).recvfrom (.err e : RecvfromResult Unit)).map fun c => s.withClient i c
  | .hear i payload => s.hear i payload
  | .hearFails e => (s.server.recvfrom (.err e)).map fun server => { s with server := server }
  | .reply target => s.reply target
  | .loseRequest i payload =>
    (taken s.requests (i, payload)).map fun requests => { s with requests := requests }
  | .loseReply i payload =>
    (taken s.replies (i, payload)).map fun replies => { s with replies := replies }
  | .copyRequest i payload =>
    if (i, payload) ∈ s.requests then some { s with requests := s.requests ++ [(i, payload)] }
    else none
  | .copyReply i payload =>
    if (i, payload) ∈ s.replies then some { s with replies := s.replies ++ [(i, payload)] }
    else none

end Udp

end SystemCallLearn.Net
