import Mathlib.Data.List.Basic
import Mathlib.Algebra.Ring.Int.Defs
import Mathlib.Algebra.Ring.Nat

/-!
# What the system calls answer

The programs see the kernel through the answers of their system calls. The model takes these
answers as inputs, one for each call, so that a statement about all answers is a statement about
every behaviour of the kernel and the peers. A failed call sets `errno`; a successful one leaves it.
-/

namespace SystemCallLearn.Posix

/-- A byte string: the contents of a `std::string`, or of memory. -/
abbrev Bytes := List UInt8

/-- The values of `errno` that the programs tell apart; `zero` is its value at program start. -/
inductive Errno where
  | zero
  | eintr
  | eagain
  | ewouldblock
  | ebadf
  | eexist
  | enoent
  | other (code : Nat)
  deriving DecidableEq

/-- The answer of `recv`: the bytes it stored (none at the end of the stream), or a failure. -/
inductive RecvResult where
  | ok (bytes : Bytes)
  | err (e : Errno)
  deriving DecidableEq

/-- The answer of `send`: the number of bytes it accepted, or a failure. -/
inductive SendResult where
  | ok (n : Nat)
  | err (e : Errno)
  deriving DecidableEq

/-- Conversion to `int`: modulo `2^32`, into the range of the type. -/
def toInt (n : Int) : Int := n.bmod (2 ^ 32)

/-- Conversion of an `int` to `size_t`: modulo `2^64`. -/
def toSizeT (n : Int) : Nat := (n % 2 ^ 64).toNat

/-- The largest `int`. -/
def intMax : Nat := 2 ^ 31 - 1

/-- The value is one of the type `int`. -/
def InInt (z : Int) : Prop := -(intMax + 1 : Int) ≤ z ∧ z ≤ intMax

instance (z : Int) : Decidable (InInt z) := inferInstanceAs (Decidable (_ ∧ _))

/-- The C string at the start of a byte string: its bytes up to the first zero byte. -/
def cStr (s : Bytes) : Bytes := s.takeWhile (· ≠ 0)

/-- In the range of `int` the conversion changes nothing. -/
theorem toInt_of_inInt {z : Int} (h : InInt z) : toInt z = z := by
  unfold InInt intMax at h
  unfold toInt
  rw [Int.bmod_eq_of_le] <;> omega

theorem toInt_of_le {n : Nat} (h : n ≤ intMax) : toInt n = n :=
  toInt_of_inInt ⟨by omega, by omega⟩

theorem toSizeT_of_le {n : Nat} (h : n ≤ intMax) : toSizeT n = n := by
  unfold toSizeT intMax at *
  omega

end SystemCallLearn.Posix
