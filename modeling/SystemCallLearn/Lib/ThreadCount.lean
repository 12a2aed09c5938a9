import Mathlib.Algebra.BigOperators.Group.Finset.Piecewise
import Mathlib.Algebra.BigOperators.Group.Finset.Basic
import Mathlib.Algebra.Order.BigOperators.Group.Finset
import Mathlib.Data.Fintype.Basic

/-!
# Counting threads

The program points of a finite family of threads are a function `f : ι → α`. Counting invariants
speak about the number of threads at a kind of program point (`count p f`), measures about the sum
of the weights of the points (`total w f`); a step of one thread moves one of them, and
`count_update` and `total_update` say how these follow.
-/

namespace SystemCallLearn.Lib

open Finset

variable {ι α : Type*} [Fintype ι]

/-- The sum of the weights of the program points. -/
def total (w : α → Nat) (f : ι → α) : Nat := ∑ i, w (f i)

/-- The number of threads whose program point satisfies `p`. -/
def count (p : α → Bool) (f : ι → α) : Nat := ∑ i, (p (f i)).toNat

/-- Moving one thread from `f i` to `x` changes the sum by what the two points weigh. -/
theorem total_update [DecidableEq ι] (w : α → Nat) (f : ι → α) (i : ι) (x : α) :
    total w (Function.update f i x) + w (f i) = total w f + w x := by
  have hupd : (fun j => w (Function.update f i x j)) =
      Function.update (fun j => w (f j)) i (w x) := by
    funext j
    by_cases hj : j = i
    · subst hj
      simp
    · simp [hj]
  have hnew : total w (Function.update f i x) = w x + ∑ j ∈ univ \ {i}, w (f j) := by
    unfold total
    rw [hupd, sum_update_of_mem (mem_univ i)]
  have hold : total w f = w (f i) + ∑ j ∈ univ \ {i}, w (f j) := by
    unfold total
    rw [← add_sum_erase univ (fun j => w (f j)) (mem_univ i), sdiff_singleton_eq_erase]
  omega

/-- Moving one thread from `f i` to `x` changes the count by what `p` says of the two points. -/
theorem count_update [DecidableEq ι] (p : α → Bool) (f : ι → α) (i : ι) (x : α) :
    count p (Function.update f i x) + (p (f i)).toNat = count p f + (p x).toNat :=
  total_update (fun y => (p y).toNat) f i x

/-- Every thread gains `k` at most. -/
theorem total_le_add {w : α → Nat} {f g : ι → α} {k : Nat} (h : ∀ i, w (g i) ≤ w (f i) + k) :
    total w g ≤ total w f + k * Fintype.card ι := by
  have hsum : total w g ≤ ∑ i, (w (f i) + k) := sum_le_sum fun i _ => h i
  rw [sum_add_distrib] at hsum
  have hconst : ∑ _i : ι, k = k * Fintype.card ι := by simp [Nat.mul_comm]
  rw [hconst] at hsum
  exact hsum

theorem total_le {w : α → Nat} {f : ι → α} {k : Nat} (h : ∀ i, w (f i) ≤ k) :
    total w f ≤ k * Fintype.card ι := by
  have hsum : total w f ≤ ∑ _i : ι, k := sum_le_sum fun i _ => h i
  simpa [Nat.mul_comm] using hsum

theorem total_const {w : α → Nat} {f : ι → α} {k : Nat} (h : ∀ i, w (f i) = k) :
    total w f = k * Fintype.card ι := by
  unfold total
  simp [h, Nat.mul_comm]

theorem total_eq_zero {w : α → Nat} {f : ι → α} : total w f = 0 ↔ ∀ i, w (f i) = 0 := by
  unfold total
  simp

omit [Fintype ι] in
/-- Moving one thread to a point outside `p` brings nobody to a point of `p`. -/
theorem of_update [DecidableEq ι] (p : α → Bool) {f : ι → α} {i j : ι} {x : α} (hx : p x = false)
    (h : p (Function.update f i x j) = true) : p (f j) = true := by
  by_cases hji : j = i
  · rw [hji, Function.update_self, hx] at h
    cases h
  · rwa [Function.update_of_ne hji] at h

/-- The threads at a point of `r` are those at a point of `p` and those at a point of `q`. -/
theorem count_add {p q r : α → Bool} (h : ∀ x, (r x).toNat = (p x).toNat + (q x).toNat)
    (f : ι → α) : count r f = count p f + count q f := by
  unfold count
  rw [← sum_add_distrib]
  exact sum_congr rfl fun i _ => h (f i)

theorem count_congr {p q : α → Bool} {f g : ι → α} (h : ∀ i, p (f i) = q (g i)) :
    count p f = count q g :=
  sum_congr rfl fun i _ => congrArg Bool.toNat (h i)

/-- The threads counted stay counted, and one more is counted. -/
theorem count_lt {p : α → Bool} {f g : ι → α} (h : ∀ i, p (f i) = true → p (g i) = true) {i : ι}
    (hf : p (f i) = false) (hg : p (g i) = true) : count p f < count p g :=
  sum_lt_sum (fun i _ => Bool.toNat_le_toNat (h i)) ⟨i, mem_univ i, by rw [hf, hg]; decide⟩

theorem count_pos {p : α → Bool} {f : ι → α} {i : ι} (h : p (f i) = true) : 0 < count p f := by
  have hle : (p (f i)).toNat ≤ count p f :=
    single_le_sum (f := fun j => (p (f j)).toNat) (fun _ _ => Nat.zero_le _) (mem_univ i)
  rw [h] at hle
  exact hle

theorem count_eq_zero {p : α → Bool} {f : ι → α} (h : ∀ i, p (f i) = false) : count p f = 0 := by
  unfold count
  simp [h]

end SystemCallLearn.Lib
