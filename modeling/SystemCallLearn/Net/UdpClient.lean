import SystemCallLearn.Net.UdpServer

/-!
# `udp_client.cc`

The loop reads a word, sends it to the server, waits for a datagram and prints the buffer as a C
string. The buffer has the size of the server's and is used in the same way; the answers of `sendto`
and `recvfrom` are not looked at.
-/

namespace SystemCallLearn.Net

open SystemCallLearn.Posix
open SystemCallLearn.Net.UdpServer

/-- Where the client is: at the prompt, or blocked in `recvfrom`. -/
inductive UdpClient.Point where
  | prompt
  | recvfrom
  deriving DecidableEq

/-- A client, with two ghosts: the messages it has passed to `sendto`, and the texts it has printed
    behind `server say # : `. -/
structure UdpClient where
  point : UdpClient.Point
  buffer : Buffer
  messages : List Bytes
  serverSay : List (Option Bytes)

namespace UdpClient

variable {π : Type}

/-- Before the first iteration. -/
def start (buffer : Buffer) : UdpClient where
  point := .prompt
  buffer := buffer
  messages := []
  serverSay := []

/-- `cin >> message;` and `sendto`, whatever this answers. At the end of the input the message is
    empty, and is sent all the same. -/
def sendto (c : UdpClient) (message : Bytes) : Option UdpClient :=
  match c.point with
  | .prompt => some { c with point := .recvfrom, messages := c.messages ++ [message] }
  | .recvfrom => none

/-- `recvfrom` answers, and the buffer is printed. -/
def recvfrom (c : UdpClient) (answer : RecvfromResult π) : Option UdpClient :=
  match c.point with
  | .prompt => none
  | .recvfrom =>
    let buffer := c.buffer.recvfrom answer
    some { c with point := .prompt, buffer := buffer, serverSay := c.serverSay ++ [buffer.text] }

end UdpClient

end SystemCallLearn.Net
