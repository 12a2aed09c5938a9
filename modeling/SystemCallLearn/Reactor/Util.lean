import SystemCallLearn.Posix.Calls
import SystemCallLearn.Lib.Split

/-!
# `Util.hpp`: framing and operands

`SplitSegment` cuts the input buffer at a separator, `Deserialize` cuts a token at its first `+`.
The conversions `atoi` and `std::to_string` that the requests go through are here as well.
-/

namespace SystemCallLearn.Reactor

open SystemCallLearn.Posix SystemCallLearn.Lib

/-- `'+'` -/
def plus : UInt8 := 43

/-- `'-'` -/
def minus : UInt8 := 45

/-- `'0'` -/
def zeroDigit : UInt8 := 48

/-- The loop of `SplitSegment`, `fuel` iterations of it. An empty separator is found at position 0
    for ever; a non-empty one shortens the buffer. -/
def splitSegmentLoop (sep : Bytes) : Nat → Bytes → List Bytes → Option (Bytes × List Bytes)
  | 0, _, _ => none
  | fuel + 1, inbuffer, tokens =>
    match firstOcc sep inbuffer with
    | none => some (inbuffer, tokens)
    | some pos =>
      let sub := inbuffer.take pos
      splitSegmentLoop sep fuel (inbuffer.drop (pos + sep.length)) (tokens ++ [sub])

/-- `SplitSegment(inbuffer, &tokens, sep)`: the new `inbuffer` and `tokens`. -/
def splitSegment (inbuffer : Bytes) (tokens : List Bytes) (sep : Bytes) :
    Option (Bytes × List Bytes) :=
  splitSegmentLoop sep (inbuffer.length + 1) inbuffer tokens

/-- `Deserialize(seg, &out1, &out2)`: the operands, or `none` where it returns `false`. -/
def deserialize (seg : Bytes) : Option (Bytes × Bytes) :=
  let op := [plus]
  match firstOcc op seg with
  | none => none
  | some pos => some (seg.take pos, seg.drop (pos + op.length))

/-- `isspace` of the C locale. -/
def isSpace (c : UInt8) : Bool := c = 32 || (9 ≤ c && c ≤ 13)

def isDigit (c : UInt8) : Bool := zeroDigit ≤ c && c ≤ 57

/-- The value of the leading digits. -/
def digitsValue (s : Bytes) : Int :=
  (s.takeWhile isDigit).foldl (fun v c => 10 * v + (c.toNat - zeroDigit.toNat : Nat)) 0

/-- `strtol` stops at the ends of the range of `long`. -/
def clampLong (v : Int) : Int := max (-2 ^ 63) (min v (2 ^ 63 - 1))

/-- `atoi`: leading white space, an optional sign and the digits behind it, through `strtol` and a
    conversion to `int`. -/
def atoi (s : Bytes) : Int :=
  let s := s.dropWhile isSpace
  match s with
  | [] => 0
  | c :: t =>
    if c = minus then toInt (clampLong (-digitsValue t))
    else if c = plus then toInt (clampLong (digitsValue t))
    else toInt (clampLong (digitsValue (c :: t)))

/-- `std::to_string` of an `int`. -/
def toString (z : Int) : Bytes :=
  let digits := (Nat.toDigits 10 z.natAbs).map Char.toUInt8
  if z < 0 then minus :: digits else digits

end SystemCallLearn.Reactor
