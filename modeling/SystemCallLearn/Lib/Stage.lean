import SystemCallLearn.Lib.Mutex

/-!
# A resource that is made in stages behind a mutex

A resource passes through stages. `allows l x` says that a thread may be at the point `x` while the
resource is at the stage `l`. Only the owner of the mutex changes the stage, so all that is asked of
a change is that the points outside the critical section do not mind it: there is no other thread
inside.
-/

namespace SystemCallLearn.Lib

variable {ι α σ : Type*}

/-- The mutex is owned by the thread inside, and every thread is at a point that the stage
    allows. -/
structure Staged (mtx : Option ι) (f : ι → α) (inside : α → Bool) (allows : σ → α → Prop) (l : σ) :
    Prop where
  owner : Owns mtx f inside
  points : ∀ i, allows l (f i)

variable {mtx : Option ι} {f : ι → α} {inside : α → Bool} {allows : σ → α → Prop} {l l' : σ}
  {i : ι} {x : α}

theorem Staged.owned (h : Staged mtx f inside allows l) (hi : inside (f i) = true) :
    mtx = some i :=
  (h.owner i).2 hi

variable [DecidableEq ι]

theorem allows_update (h : ∀ j, allows l (f j)) (hx : allows l x) (j : ι) :
    allows l (Function.update f i x j) := by
  by_cases hj : j = i
  · subst hj
    rwa [Function.update_self]
  · rw [Function.update_of_ne hj]
    exact h j

/-- A move that leaves the stage as it is and does not cross the border of the section. -/
theorem Staged.keep (h : Staged mtx f inside allows l) (hx : inside x = inside (f i))
    (ha : allows l x) : Staged mtx (Function.update f i x) inside allows l :=
  ⟨h.owner.keep hx, allows_update h.points ha⟩

/-- A thread enters with the free mutex. -/
theorem Staged.acquire (h : Staged none f inside allows l) (hx : inside x = true)
    (ha : allows l x) : Staged (some i) (Function.update f i x) inside allows l :=
  ⟨h.owner.acquire hx, allows_update h.points ha⟩

/-- The owner leaves. -/
theorem Staged.release (h : Staged mtx f inside allows l) (hi : inside (f i) = true)
    (hx : inside x = false) (ha : allows l x) :
    Staged none (Function.update f i x) inside allows l :=
  ⟨h.owner.release hi hx, allows_update h.points ha⟩

/-- **The owner changes the stage.** The other threads are outside, and what is allowed there stays
    allowed. -/
theorem Staged.advance (h : Staged mtx f inside allows l) (hi : inside (f i) = true)
    (hstable : ∀ y, inside y = false → allows l y → allows l' y) (hx : inside x = true)
    (ha : allows l' x) : Staged mtx (Function.update f i x) inside allows l' := by
  refine ⟨h.owner.keep (hx.trans hi.symm), ?_⟩
  intro j
  by_cases hj : j = i
  · subst hj
    rwa [Function.update_self]
  · rw [Function.update_of_ne hj]
    refine hstable _ ?_ (h.points j)
    cases hc : inside (f j) with
    | false => rfl
    | true => exact absurd (h.owner.exclusive hc hi) hj

end SystemCallLearn.Lib
