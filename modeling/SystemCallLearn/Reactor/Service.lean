import SystemCallLearn.Reactor.Util
import Mathlib.Logic.Function.Basic

/-!
# `Service.hpp`: the handlers of a connection

`RecverCore` drains the socket, `Recver` answers the requests found in the input buffer,
`SenderCore` and `Sender` send what is in the output buffer. The handlers are modelled on the
two buffers of an `Event`; what they do to the `Event` itself in the end is the `Next` they
return.

The loops take one answer of the kernel in each iteration. A function returns `none` when the
answers end before the loop does: the call has not returned yet.

`errno` is what the system calls leave in it. `atoi` may leave `ERANGE` there when an operand is out
of range; that is left out, so after a `Recver` that has parsed requests the `errno` of the process
is known only up to what the connection itself has sent.
-/

namespace SystemCallLearn.Reactor

open SystemCallLearn.Posix SystemCallLearn.Lib

/-- `ONCE_SIZE` -/
def onceSize : Nat := 128

/-- The separator `"X"` of the requests and the answers. -/
def sep : Bytes := [88]

/-- `'='` -/
def equals : UInt8 := 61

/-! ## `RecverCore` -/

/-- The memory at `char buffer[ONCE_SIZE]`, by offset from its start, and the offsets written so
    far. The array is not initialised and each iteration finds in it what the last one left. -/
structure Frame where
  mem : Nat → UInt8
  written : List Nat

/-- `recv` stores the bytes it received from the start of the buffer on. -/
def Frame.fill (f : Frame) (bytes : Bytes) : Frame where
  mem i := if h : i < bytes.length then bytes[i] else f.mem i
  written := f.written ++ List.range bytes.length

/-- `buffer[i] = c`. -/
def Frame.put (f : Frame) (i : Nat) (c : UInt8) : Frame where
  mem := Function.update f.mem i c
  written := f.written ++ [i]

/-- The C string in the first `n` bytes of the buffer. -/
def Frame.cString (f : Frame) (n : Nat) : Bytes := cStr ((List.range n).map f.mem)

/-- What `RecverCore` leaves. -/
structure RecverEnd where
  ret : Int
  inbuffer : Bytes
  frame : Frame
  errno : Errno

/-- `RecverCore(sock, inbuffer)`. -/
def recverCore (errno : Errno) (frame : Frame) (inbuffer : Bytes) :
    List RecvResult → Option RecverEnd
  | [] => none
  | .ok bytes :: rest =>
    if 0 < bytes.length then
      -- buffer[s] = '\0'; inbuffer += buffer;
      let s := bytes.length
      let frame := (frame.fill bytes).put s 0
      recverCore errno frame (inbuffer ++ frame.cString (s + 1)) rest
    else
      some { ret := 0, inbuffer := inbuffer, frame := frame, errno := errno }
  | .err e :: rest =>
    if e = .eintr then recverCore e frame inbuffer rest
    else if e = .eagain ∨ e = .ewouldblock then
      some { ret := 1, inbuffer := inbuffer, frame := frame, errno := e }
    else
      some { ret := -1, inbuffer := inbuffer, frame := frame, errno := e }

/-! ## `Recver` -/

/-- What a handler does with its `Event` in the end. -/
inductive Next where
  | nothing
  | errer
  | enableRW (read write : Bool)
  deriving DecidableEq

/-- What one request adds to the output buffer: the equation if `Deserialize` accepts it. -/
def response (seg : Bytes) : Bytes :=
  match deserialize seg with
  | none => []
  | some (data1, data2) =>
    let x := atoi (cStr data1)
    let y := atoi (cStr data2)
    let z := toInt (x + y)
    data1 ++ [plus] ++ data2 ++ [equals] ++ toString z ++ sep

/-- The loop over the tokens. -/
def respond (outbuffer : Bytes) : List Bytes → Bytes
  | [] => outbuffer
  | seg :: tokens => respond (outbuffer ++ response seg) tokens

/-- What `Recver` leaves; `tokens` are the requests it has parsed. -/
structure RecverRun where
  inbuffer : Bytes
  outbuffer : Bytes
  tokens : List Bytes
  next : Next
  errno : Errno

/-- `Recver(evp)`. -/
def recver (errno : Errno) (frame : Frame) (inbuffer outbuffer : Bytes)
    (answers : List RecvResult) : Option RecverRun :=
  match recverCore errno frame inbuffer answers with
  | none => none
  | some r =>
    if r.ret ≤ 0 then
      some { inbuffer := r.inbuffer, outbuffer := outbuffer, tokens := [], next := .errer
             errno := r.errno }
    else
      match splitSegment r.inbuffer [] sep with
      | none => none
      | some (inbuffer, tokens) =>
        let outbuffer := respond outbuffer tokens
        some { inbuffer := inbuffer, outbuffer := outbuffer, tokens := tokens
               next := if outbuffer.isEmpty then .nothing else .enableRW true true
               errno := r.errno }

/-! ## `SenderCore` and `Sender` -/

/-- One call `send(sock, start + total, len, 0)` and its answer. -/
structure SendCall where
  total : Nat
  len : Nat
  answer : SendResult
  deriving DecidableEq

/-- The positions of the output buffer whose bytes the kernel takes in a call. -/
def SendCall.positions (c : SendCall) : List Nat :=
  match c.answer with
  | .ok n => (List.range n).map (c.total + ·)
  | .err _ => []

/-- What `SenderCore` leaves, and the calls it made. -/
structure SenderEnd where
  ret : Int
  outbuffer : Bytes
  calls : List SendCall
  errno : Errno
  deriving DecidableEq

/-- The `else` branch, for a `send` that accepted nothing: `none` goes on with the loop. It reads
    `errno` whether or not the call has set it. -/
def senderElse (errno : Errno) (outbuffer : Bytes) (total : Int) (call : SendCall) :
    Option SenderEnd :=
  if errno = .eintr then none
  else if errno = .eagain ∨ errno = .ewouldblock then
    some { ret := 0, outbuffer := outbuffer.drop total.toNat, calls := [call], errno := errno }
  else
    some { ret := -1, outbuffer := outbuffer, calls := [call], errno := errno }

/-- The body of the loop of `SenderCore`, for the answer of its `send`: the end of the function, or
    the call made and the `errno` with which the loop goes on. -/
def senderBody (errno : Errno) (outbuffer : Bytes) (answer : SendResult) :
    SenderEnd ⊕ (SendCall × Errno) :=
  let total : Int := 0
  let size := toInt outbuffer.length
  let call := { total := total.toNat, len := toSizeT (size - total), answer := answer : SendCall }
  match answer with
  | .ok curr =>
    if 0 < curr then
      let total := toInt (total + curr)
      if total = size then
        .inl { ret := 1, outbuffer := [], calls := [call], errno := errno }
      else
        .inr (call, errno)
    else
      match senderElse errno outbuffer total call with
      | some r => .inl r
      | none => .inr (call, errno)
  | .err e =>
    match senderElse e outbuffer total call with
    | some r => .inl r
    | none => .inr (call, e)

/-- `SenderCore(sock, outbuffer)`. -/
def senderCore (errno : Errno) (outbuffer : Bytes) : List SendResult → Option SenderEnd
  | [] => none
  | answer :: rest =>
    match senderBody errno outbuffer answer with
    | .inl r => some r
    | .inr (call, errno) =>
      (senderCore errno outbuffer rest).map fun r => { r with calls := call :: r.calls }

/-- The positions taken by the calls that `SenderCore` made, in order. -/
def SenderEnd.positions (r : SenderEnd) : List Nat := r.calls.flatMap SendCall.positions

/-- The bytes accepted by the calls that `SenderCore` made on `outbuffer`. A position past its end
    is no byte of it. -/
def SenderEnd.accepted (outbuffer : Bytes) (r : SenderEnd) : List (Option UInt8) :=
  r.positions.map fun i => outbuffer[i]?

/-- What `Sender` does after `SenderCore`. -/
def SenderEnd.next (r : SenderEnd) : Next :=
  if r.ret = 1 then .enableRW true false
  else if r.ret = 0 then .enableRW true true
  else .errer

end SystemCallLearn.Reactor
