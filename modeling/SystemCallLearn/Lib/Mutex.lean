import Mathlib.Logic.Function.Basic

/-!
# Mutex ownership by program point

A mutex is the thread that owns it, if any. `Owns mtx f p` says that the owner is the one thread
whose program point satisfies `p`: the points inside the critical section. A thread that moves
within or outside the section keeps it; entering takes the free mutex and leaving frees it.
-/

namespace SystemCallLearn.Lib

variable {ι α : Type*}

/-- The owner of `mtx` is the thread at a point that satisfies `p`. -/
def Owns (mtx : Option ι) (f : ι → α) (p : α → Bool) : Prop := ∀ i, mtx = some i ↔ p (f i) = true

variable {mtx : Option ι} {f : ι → α} {p : α → Bool} {i j : ι} {x : α}

theorem Owns.exclusive (h : Owns mtx f p) (hi : p (f i) = true) (hj : p (f j) = true) : i = j :=
  Option.some.inj (((h i).2 hi).symm.trans ((h j).2 hj))

theorem Owns.outside (h : Owns none f p) (j : ι) : p (f j) = false := by
  have hj := h j
  simpa using hj

theorem owns_none (h : ∀ i, p (f i) = false) : Owns none f p := by
  intro i
  simp [h i]

variable [DecidableEq ι]

/-- A move that does not cross the border of the critical section. -/
theorem Owns.keep (h : Owns mtx f p) (hx : p x = p (f i)) : Owns mtx (Function.update f i x) p := by
  intro j
  by_cases hj : j = i
  · subst hj
    simpa [hx] using h j
  · simpa [hj] using h j

/-- A thread enters with the free mutex. -/
theorem Owns.acquire (h : Owns none f p) (hx : p x = true) :
    Owns (some i) (Function.update f i x) p := by
  intro j
  by_cases hj : j = i
  · subst hj
    simp [hx]
  · have hij : ¬ i = j := fun he => hj he.symm
    simp [hj, hij, h.outside j]

/-- The owner leaves and frees the mutex. -/
theorem Owns.release (h : Owns mtx f p) (hi : p (f i) = true) (hx : p x = false) :
    Owns none (Function.update f i x) p := by
  refine owns_none fun j => ?_
  by_cases hj : j = i
  · subst hj
    simpa using hx
  · rw [Function.update_of_ne hj]
    cases hc : p (f j) with
    | false => rfl
    | true => exact absurd (h.exclusive hc hi) hj

end SystemCallLearn.Lib
