import SystemCallLearn.Posix.Calls

/-!
# `udp_server.cc`

The loop receives a datagram into `buffer`, prints `buffer` as a C string and answers the sender.
There is one `buffer` for all iterations and all clients. It is not initialised, `recvfrom` stores
the payload without a terminator, and its answer is not looked at.
-/

namespace SystemCallLearn.Net.UdpServer

open SystemCallLearn.Posix

/-- `NUM` -/
def num : Nat := 1024

/-- `char buffer[NUM]` -/
structure Buffer where
  bytes : Bytes
  size : bytes.length = num

/-- What `recvfrom(sock, buffer, sizeof(buffer) - 1, …)` stores of a payload. -/
def received (payload : Bytes) : Bytes := payload.take (num - 1)

theorem received_length (payload : Bytes) : (received payload).length ≤ num := by
  unfold received num
  rw [List.length_take]
  omega

/-- The payload is stored from the start of the buffer on; what lies behind it stays. -/
def Buffer.store (b : Buffer) (payload : Bytes) : Buffer where
  bytes := received payload ++ b.bytes.drop (received payload).length
  size := by
    have hle := received_length payload
    have hsize := b.size
    rw [List.length_append, List.length_drop]
    omega

/-- What `cout << buffer` prints; `none` if it runs past the end of the array. -/
def Buffer.text (b : Buffer) : Option Bytes := if 0 ∈ b.bytes then some (cStr b.bytes) else none

variable {π : Type}

/-- The answer of `recvfrom`: a datagram and its sender, or a failure. -/
inductive RecvfromResult (π : Type) where
  | ok (payload : Bytes) (peer : π)
  | err (e : Errno)
  deriving DecidableEq

/-- What an iteration does: the text behind `client say : `, and the address that `hello client` is
    sent to, which is unset after a failure. -/
structure Round (π : Type) where
  clientSay : Option Bytes
  helloClient : Option π
  deriving DecidableEq

/-- What a call of `recvfrom` leaves in the buffer. -/
def Buffer.recvfrom (b : Buffer) : RecvfromResult π → Buffer
  | .ok payload _ => b.store payload
  | .err _ => b

/-- The sender that a call of `recvfrom` fills in. -/
def RecvfromResult.peer : RecvfromResult π → Option π
  | .ok _ peer => some peer
  | .err _ => none

/-- `while (!quit)`, with one answer for each iteration. -/
def serve (b : Buffer) : List (RecvfromResult π) → List (Round π)
  | [] => []
  | a :: rest =>
    let b := b.recvfrom a
    { clientSay := b.text, helloClient := a.peer } :: serve b rest

end SystemCallLearn.Net.UdpServer
