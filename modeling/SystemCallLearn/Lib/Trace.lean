import SystemCallLearn.Lib.Lts

/-!
# What the runs of a system emit

`obs s a` is what is seen from outside when the action `a` is taken in the state `s`. A run emits
what its steps emit, one after the other (`emitted`), and the history rule is the invariant rule for
properties of the state and of everything emitted so far.

When what every step emits is a run of a second system, and a relation between the states is kept,
what a whole run emits is a run of that system (`Run.project`). Where `Run.simulate` only says that
there is a matching run, this rule says which one.
-/

namespace SystemCallLearn.Lib

variable {σ τ α ο : Type*}

/-- What the actions emit from `s` on; `next` computes the states in between. -/
def emitted (next : σ → α → Option σ) (obs : σ → α → List ο) : σ → List α → List ο
  | _, [] => []
  | s, a :: as => obs s a ++ (next s a).elim [] fun t => emitted next obs t as

section Emitted

variable {next : σ → α → Option σ} {obs : σ → α → List ο} {R : σ → α → σ → Prop} {s t : σ}
  {as bs : List α}

theorem emitted_append (hnext : ∀ s a t, R s a t → next s a = some t) (h : Run R s as t) :
    emitted next obs s (as ++ bs) = emitted next obs s as ++ emitted next obs t bs := by
  induction h generalizing bs with
  | nil => rfl
  | @snoc as t u a _ hst ih =>
    have hone : ∀ bs, emitted next obs t (a :: bs) = obs t a ++ emitted next obs u bs := by
      intro bs
      simp only [emitted, hnext t a u hst, Option.elim_some]
    rw [List.append_assoc, ih, ih, List.singleton_append, hone, hone, List.append_assoc]
    simp [emitted]

theorem emitted_snoc (hnext : ∀ s a t, R s a t → next s a = some t) (h : Run R s as t) {u : σ}
    {a : α} (hst : R t a u) :
    emitted next obs s (as ++ [a]) = emitted next obs s as ++ obs t a := by
  rw [emitted_append hnext h]
  simp [emitted, hnext t a u hst]

/-- **The history rule.** What holds of the start with nothing emitted, and is kept by every step
    with what it emits, holds at the end of every run with all that it has emitted. -/
theorem Run.history {I : List ο → σ → Prop} (hnext : ∀ s a t, R s a t → next s a = some t)
    (hstep : ∀ os s a t, I os s → R s a t → I (os ++ obs s a) t) (h0 : I [] s)
    (h : Run R s as t) : I (emitted next obs s as) t := by
  induction h with
  | nil => exact h0
  | snoc h hst ih =>
    rw [emitted_snoc hnext h hst]
    exact hstep _ _ _ _ ih hst

/-- **The projection rule.** If what each step emits is a run of `R'` that restores the relation, so
    is what the whole run emits. -/
theorem Run.project {R' : τ → ο → τ → Prop} {S : σ → τ → Prop}
    (hnext : ∀ s a t, R s a t → next s a = some t)
    (hstep : ∀ s a t x, S s x → R s a t → ∃ y, Run R' x (obs s a) y ∧ S t y) {x : τ} (h0 : S s x)
    (h : Run R s as t) : ∃ y, Run R' x (emitted next obs s as) y ∧ S t y := by
  refine h.history (I := fun os t => ∃ y, Run R' x os y ∧ S t y) hnext ?_ ⟨x, Run.nil, h0⟩
  rintro os s a t ⟨y, hrun, hS⟩ hst
  obtain ⟨z, hrun', hS'⟩ := hstep s a t y hS hst
  exact ⟨z, hrun.append hrun', hS'⟩

end Emitted

end SystemCallLearn.Lib
