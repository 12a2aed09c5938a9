import SystemCallLearn.Reactor.Util
import Mathlib.Data.List.TakeWhile

/-!
# `Util.hpp`: cutting, joining and numbers

`SplitSegment` is the inverse of joining tokens with a separator, `Deserialize` of joining two
operands with `+`. The text that `std::to_string` gives of an `int` is an integer literal, and
`atoi` reads the `int` back from it.
-/

namespace SystemCallLearn.Reactor

open SystemCallLearn.Posix SystemCallLearn.Lib

/-! ## `SplitSegment` -/

/-- `SplitSegment` cuts at a non-empty separator, behind the tokens it is given. -/
theorem splitSegmentLoop_eq {sep s r : Bytes} {ts : List Bytes} (hsep : sep ≠ [])
    (h : Splits sep s ts r) {fuel : Nat} (hfuel : s.length < fuel) (tokens : List Bytes) :
    splitSegmentLoop sep fuel s tokens = some (r, tokens ++ ts) := by
  have hpos : 0 < sep.length := List.length_pos_of_ne_nil hsep
  induction h generalizing fuel tokens with
  | rest hnone =>
    obtain ⟨fuel, rfl⟩ : ∃ m, fuel = m + 1 := ⟨fuel - 1, by omega⟩
    simp [splitSegmentLoop, hnone]
  | @token s r ts p hsome hrest ih =>
    obtain ⟨fuel, rfl⟩ : ∃ m, fuel = m + 1 := ⟨fuel - 1, by omega⟩
    have hbound := firstOcc_bound hsome
    have hlen : (s.drop (p + sep.length)).length < fuel := by
      rw [List.length_drop]
      omega
    simp only [splitSegmentLoop, hsome]
    rw [ih hlen]
    simp

theorem splitSegment_append {sep s r : Bytes} {ts : List Bytes} (hsep : sep ≠ [])
    (h : Splits sep s ts r) (tokens : List Bytes) :
    splitSegment s tokens sep = some (r, tokens ++ ts) :=
  splitSegmentLoop_eq hsep h (Nat.lt_succ_self _) tokens

theorem splitSegment_eq {sep s r : Bytes} {ts : List Bytes} (hsep : sep ≠ [])
    (h : Splits sep s ts r) : splitSegment s [] sep = some (r, ts) :=
  splitSegment_append hsep h []

/-- **`SplitSegment` is the inverse of joining.** For every buffer, every non-empty separator and
    all tokens that the list holds already, it terminates and appends tokens that, each with the
    separator behind it, and the new buffer make up the old one; the separator first ends each of
    them where it ends, and does not occur in the new buffer. And on the join of any such tokens and
    rest it gives these tokens and this rest. -/
theorem splitSegment_inverse (inbuffer sep : Bytes) (tokens : List Bytes) (hsep : sep ≠ []) :
    (∃ ts rest, splitSegment inbuffer tokens sep = some (rest, tokens ++ ts) ∧
      inbuffer = ts.flatMap (· ++ sep) ++ rest ∧
      (∀ t ∈ ts, FirstAt sep (t ++ sep) t.length) ∧ ¬ sep <:+: rest) ∧
    ∀ ts rest, (∀ t ∈ ts, FirstAt sep (t ++ sep) t.length) → ¬ sep <:+: rest →
      splitSegment (ts.flatMap (· ++ sep) ++ rest) tokens sep = some (rest, tokens ++ ts) := by
  constructor
  · obtain ⟨ts, rest, hcut⟩ := Splits.total hsep inbuffer
    exact ⟨ts, rest, splitSegment_append hsep hcut tokens, hcut.join, fun t ht => hcut.firstAt ht,
      firstOcc_eq_none.1 hcut.unfinished⟩
  · intro ts rest hts hrest
    exact splitSegment_append hsep (Splits.of_join hts hrest) tokens

/-- The separator `aa` overlaps itself: in `baaac` it first ends `b`, and `ac` is left. -/
theorem splitSegment_inverse_overlap :
    splitSegment [98, 97, 97, 97, 99] [[120]] [97, 97] = some ([97, 99], [[120], [98]]) := by
  have hfirst : firstOcc ([97, 97] : Bytes) ([98] ++ [97, 97]) = some 1 := by decide
  have hrest : firstOcc ([97, 97] : Bytes) [97, 99] = none := by decide
  refine (splitSegment_inverse [] [97, 97] [[120]] (by simp)).2 [[98]] [97, 99] ?_
    (firstOcc_eq_none.1 hrest)
  intro t ht
  obtain rfl := List.mem_singleton.1 ht
  exact firstOcc_eq_some.1 hfirst

/-! ## `Deserialize` -/

section Deserialize

variable {seg data1 data2 : Bytes}

/-- `Deserialize` cuts at the first `+`. -/
theorem deserialize_eq_some :
    deserialize seg = some (data1, data2) ↔ seg = data1 ++ [plus] ++ data2 ∧ plus ∉ data1 := by
  unfold deserialize
  constructor
  · intro h
    cases hf : firstOcc [plus] seg with
    | none => simp [hf] at h
    | some pos =>
      simp only [hf, Option.some.injEq, Prod.mk.injEq] at h
      obtain ⟨rfl, rfl⟩ := h
      obtain ⟨hs, hfree⟩ := firstOcc_single_some hf
      exact ⟨by rw [List.append_assoc]; exact hs, hfree⟩
  · rintro ⟨rfl, hfree⟩
    have hf : firstOcc [plus] (data1 ++ [plus] ++ data2) = some data1.length :=
      firstOcc_single hfree
    simp only [hf]
    simp

/-- It fails exactly where there is no `+`. -/
theorem deserialize_eq_none : deserialize seg = none ↔ plus ∉ seg := by
  rw [← firstOcc_single_none]
  unfold deserialize
  cases hf : firstOcc [plus] seg with
  | none => simp [hf]
  | some pos => simp [hf]

end Deserialize

/-! ## `std::to_string` and `atoi` -/

/-- The decimal digits of a number. -/
def decimal (n : Nat) : Bytes := (Nat.toDigits 10 n).map Char.toUInt8

/-- An integer literal: an optional `-` and one or more digits. -/
def IsLiteral (s : Bytes) : Prop :=
  ∃ digits, (s = digits ∨ s = minus :: digits) ∧ digits ≠ [] ∧ ∀ c ∈ digits, isDigit c = true

section Numbers

variable {s : Bytes} {c : UInt8} {n : Nat} {z : Int}

theorem toString_eq (z : Int) :
    toString z = if z < 0 then minus :: decimal z.natAbs else decimal z.natAbs := rfl

theorem isDigit_iff : isDigit c = true ↔ 48 ≤ c.toNat ∧ c.toNat ≤ 57 := by
  simp [isDigit, zeroDigit, UInt8.le_iff_toNat_le]

theorem toNat_toUInt8 {c : Char} (h : c.isDigit = true) : c.toUInt8.toNat = c.toNat := by
  have hle := (Char.isDigit_iff_toNat.1 h).2
  have h57 : '9'.toNat = 57 := rfl
  show c.toNat % 2 ^ 8 = c.toNat
  omega

theorem isDigit_of_mem_decimal (h : c ∈ decimal n) : isDigit c = true := by
  obtain ⟨d, hd, rfl⟩ := List.mem_map.1 h
  have hdigit := Nat.isDigit_of_mem_toDigits (by decide) (by decide) hd
  rw [isDigit_iff, toNat_toUInt8 hdigit]
  exact Char.isDigit_iff_toNat.1 hdigit

theorem decimal_ne_nil (n : Nat) : decimal n ≠ [] := by
  unfold decimal
  rw [Ne, List.map_eq_nil_iff]
  exact Nat.toDigits_ne_nil

/-- The digits of `n` have the value `n`. -/
theorem digitsValue_decimal (n : Nat) : digitsValue (decimal n) = n := by
  have hall : (decimal n).takeWhile isDigit = decimal n :=
    List.takeWhile_eq_self_iff.2 fun c hc => isDigit_of_mem_decimal hc
  have hfold : ∀ (l : List Char) (v : Nat), (∀ d ∈ l, d.isDigit = true) →
      (l.map Char.toUInt8).foldl
        (fun (v : Int) c => 10 * v + (c.toNat - zeroDigit.toNat : Nat)) v =
      (Nat.ofDigitChars 10 l v : Nat) := by
    intro l
    induction l with
    | nil => exact fun v _ => rfl
    | cons d l ih =>
      intro v hl
      have hd := toNat_toUInt8 (hl d List.mem_cons_self)
      rw [List.map_cons, List.foldl_cons, Nat.ofDigitChars_cons,
        ← ih _ fun e he => hl e (List.mem_cons_of_mem d he), hd]
      rfl
  unfold digitsValue
  rw [hall]
  have hdigits := hfold (Nat.toDigits 10 n) 0
    fun d hd => Nat.isDigit_of_mem_toDigits (by decide) (by decide) hd
  rwa [Nat.ofDigitChars_ten_toDigits] at hdigits

/-- **`std::to_string` writes an integer literal.** -/
theorem isLiteral_toString (z : Int) : IsLiteral (toString z) := by
  refine ⟨decimal z.natAbs, ?_, decimal_ne_nil _, fun c hc => isDigit_of_mem_decimal hc⟩
  rw [toString_eq]
  split_ifs with hneg
  · exact .inr rfl
  · exact .inl rfl

/-- The bytes of a literal. -/
theorem mem_literal (h : IsLiteral s) (hc : c ∈ s) : c = minus ∨ isDigit c = true := by
  obtain ⟨digits, hs, -, hdigits⟩ := h
  rcases hs with rfl | rfl
  · exact .inr (hdigits c hc)
  · rcases List.mem_cons.1 hc with rfl | hc
    · exact .inl rfl
    · exact .inr (hdigits c hc)

theorem notMem_literal (h : IsLiteral s) (hminus : c ≠ minus) (hdigit : isDigit c = false) :
    c ∉ s := by
  intro hc
  rcases mem_literal h hc with rfl | hd
  · exact hminus rfl
  · rw [hdigit] at hd
    cases hd

theorem cStr_eq_self : cStr s = s ↔ 0 ∉ s := by
  unfold cStr
  rw [List.takeWhile_eq_self_iff]
  constructor
  · intro h hmem
    simpa using h 0 hmem
  · intro h c hc
    have hne : c ≠ 0 := fun he => h (he ▸ hc)
    simpa using hne

theorem clampLong_eq (h : InInt z) : clampLong z = z := by
  unfold InInt intMax at h
  unfold clampLong
  omega

/-- **`atoi` reads back what `std::to_string` writes.** -/
theorem atoi_toString (h : InInt z) : atoi (toString z) = z := by
  rw [toString_eq]
  split_ifs with hneg
  · have hspace : (minus :: decimal z.natAbs).dropWhile isSpace = minus :: decimal z.natAbs :=
      List.dropWhile_cons_of_neg (by decide)
    have hval : -((z.natAbs : Nat) : Int) = z := by omega
    unfold atoi
    simp only [hspace, if_true]
    rw [digitsValue_decimal, hval, clampLong_eq h, toInt_of_inInt h]
  · obtain ⟨c, t, hct⟩ := List.exists_cons_of_ne_nil (decimal_ne_nil z.natAbs)
    have hdigit : isDigit c = true := isDigit_of_mem_decimal (n := z.natAbs) (by simp [hct])
    obtain ⟨hlo, hhi⟩ := isDigit_iff.1 hdigit
    have hspace : ¬ isSpace c = true := by
      simp only [isSpace, Bool.or_eq_true, Bool.and_eq_true, decide_eq_true_eq,
        UInt8.le_iff_toNat_le]
      rintro (rfl | ⟨-, hle⟩)
      · exact absurd hlo (by decide)
      · have h13 : (13 : UInt8).toNat = 13 := rfl
        omega
    have hminus : c ≠ minus := by
      rintro rfl
      exact absurd hlo (by decide)
    have hplus : c ≠ plus := by
      rintro rfl
      exact absurd hlo (by decide)
    have hval : ((z.natAbs : Nat) : Int) = z := by omega
    unfold atoi
    rw [hct, List.dropWhile_cons_of_neg hspace]
    simp only [if_neg hminus, if_neg hplus]
    rw [← hct, digitsValue_decimal, hval, clampLong_eq h, toInt_of_inInt h]

end Numbers

end SystemCallLearn.Reactor
