import Mathlib.Data.List.Basic

/-!
# Runs of labelled transition systems

A system is given by its labelled step relation `Step : σ → α → σ → Prop`. A run is a finite
sequence of steps. The invariant rule turns what one step preserves into what every run preserves;
the simulation rule maps the runs of one system to the runs of another.

A system whose step is a partial function `step : σ → α → Option σ` can be executed (`exec`); the
run it computes is a run of the relation `Step step`. A computation that may fail with an error has
an `Outcome`: what holds of its value, or of its error.
-/

namespace SystemCallLearn.Lib

variable {σ τ α β : Type*}

/-- The runs of `R`: `Run R s as t` when the actions `as` lead from `s` to `t`. The last action is
    the outermost constructor, so an induction over a run keeps its start fixed. -/
inductive Run (R : σ → α → σ → Prop) (s : σ) : List α → σ → Prop where
  | nil : Run R s [] s
  | snoc {as : List α} {t u : σ} {a : α} (h : Run R s as t) (hst : R t a u) :
      Run R s (as ++ [a]) u

/-- The states that some run of `R` from `s` reaches. -/
def Reachable (R : σ → α → σ → Prop) (s t : σ) : Prop := ∃ as, Run R s as t

/-- The steps of `R` that are taken in a state and with an action that satisfy `ok`. -/
def Guarded (ok : σ → α → Prop) (R : σ → α → σ → Prop) (s : σ) (a : α) (t : σ) : Prop :=
  ok s a ∧ R s a t

/-- The step relation of a partial step function. -/
def Step (step : σ → α → Option σ) (s : σ) (a : α) (t : σ) : Prop := step s a = some t

/-- The state after the actions `as`, if every one of them is enabled when its turn comes. -/
def exec (step : σ → α → Option σ) : σ → List α → Option σ
  | s, [] => some s
  | s, a :: as => (step s a).bind fun t => exec step t as

section Runs

variable {R : σ → α → σ → Prop} {s t u : σ} {as bs : List α}

theorem Run.single {a : α} (h : R s a t) : Run R s [a] t := Run.snoc Run.nil h

theorem Run.eq_of_nil (h : Run R s [] t) : t = s := by
  generalize hnil : ([] : List α) = as at h
  cases h with
  | nil => rfl
  | snoc => simp at hnil

theorem Run.append (h1 : Run R s as t) (h2 : Run R t bs u) : Run R s (as ++ bs) u := by
  induction h2 with
  | nil => simpa using h1
  | snoc h hst ih =>
    rw [← List.append_assoc]
    exact Run.snoc ih hst

/-- **The invariant rule.** What holds of the start and is kept by every step holds at the end of
    every run. -/
theorem Run.invariant {I : σ → Prop} (hstep : ∀ s a t, I s → R s a t → I t) (h0 : I s)
    (h : Run R s as t) : I t := by
  induction h with
  | nil => exact h0
  | snoc _ hst ih => exact hstep _ _ _ ih hst

theorem Reachable.invariant {I : σ → Prop} (hstep : ∀ s a t, I s → R s a t → I t) (h0 : I s)
    (h : Reachable R s t) : I t := by
  obtain ⟨as, has⟩ := h
  exact has.invariant hstep h0

/-- A run all of whose steps are steps of `R'` is a run of `R'`. -/
theorem Run.mono {R' : σ → α → σ → Prop} (hR : ∀ s a t, R s a t → R' s a t)
    (h : Run R s as t) : Run R' s as t := by
  induction h with
  | nil => exact Run.nil
  | snoc _ hst ih => exact Run.snoc ih (hR _ _ _ hst)

/-- A run whose actions are allowed in every state is a guarded run. -/
theorem Run.guarded {ok : σ → α → Prop} (h : Run R s as t) (hok : ∀ a ∈ as, ∀ s, ok s a) :
    Run (Guarded ok R) s as t := by
  induction h with
  | nil => exact Run.nil
  | snoc _ hst ih =>
    exact Run.snoc (ih fun a ha => hok a (List.mem_append_left _ ha)) ⟨hok _ (by simp) _, hst⟩

/-- The same action taken `k` times, through the states `f 0`, `f 1`, …. -/
theorem Run.replicate {a : α} {f : Nat → σ} (k : Nat)
    (h : ∀ j < k, R (f j) a (f (j + 1))) : Run R (f 0) (List.replicate k a) (f k) := by
  induction k with
  | zero => exact Run.nil
  | succ k ih =>
    rw [List.replicate_succ']
    exact (ih fun j hj => h j (Nat.lt_succ_of_lt hj)).snoc (h k (Nat.lt_succ_self k))

/-- **The rule of rounds.** If every state of stage `k` has a run to one of stage `k + 1`, a state
    of the first stage has a run to one of each later stage. -/
theorem exists_rounds {P : Nat → σ → Prop} {n : Nat}
    (hround : ∀ k < n, ∀ t, P k t → ∃ as u, Run R t as u ∧ P (k + 1) u) (h0 : P 0 s) :
    ∃ as t, Run R s as t ∧ P n t := by
  induction n with
  | zero => exact ⟨[], s, Run.nil, h0⟩
  | succ n ih =>
    obtain ⟨as, t, hrun, ht⟩ := ih fun k hk => hround k (Nat.lt_succ_of_lt hk)
    obtain ⟨bs, u, hrun', hu⟩ := hround n (Nat.lt_succ_self n) t ht
    exact ⟨as ++ bs, u, hrun.append hrun', hu⟩

/-- **The simulation rule.** If every step of `R` from a state related to `x` is matched by a run
    of `R'` from `x` (possibly empty) that restores the relation, every run of `R` is. -/
theorem Run.simulate {R' : τ → β → τ → Prop} {S : σ → τ → Prop}
    (hsim : ∀ s a t x, S s x → R s a t → ∃ bs y, Run R' x bs y ∧ S t y) {x : τ} (h0 : S s x)
    (h : Run R s as t) : ∃ bs y, Run R' x bs y ∧ S t y := by
  induction h with
  | nil => exact ⟨[], x, Run.nil, h0⟩
  | snoc _ hst ih =>
    obtain ⟨bs, y, hr, hS⟩ := ih
    obtain ⟨bs', z, hr', hS'⟩ := hsim _ _ _ _ hS hst
    exact ⟨bs ++ bs', z, hr.append hr', hS'⟩

/-- The simulation rule where the state of `R'` is read off the state of `R`. -/
theorem Run.abstract {R' : τ → β → τ → Prop} (f : σ → τ)
    (hsim : ∀ s a t, R s a t → ∃ bs, Run R' (f s) bs (f t)) (h : Run R s as t) :
    ∃ bs, Run R' (f s) bs (f t) := by
  have hstep : ∀ u a v x, x = f u → R u a v → ∃ bs y, Run R' x bs y ∧ y = f v := by
    rintro u a v x rfl hst
    obtain ⟨bs, hrun⟩ := hsim u a v hst
    exact ⟨bs, f v, hrun, rfl⟩
  obtain ⟨bs, y, hrun, rfl⟩ := h.simulate hstep rfl
  exact ⟨bs, hrun⟩

end Runs

section Exec

variable {step : σ → α → Option σ} {s t : σ} {as : List α}

/-- An executed run is a run of the step relation. -/
theorem exec_run (h : exec step s as = some t) : Run (Step step) s as t := by
  induction as generalizing s with
  | nil =>
    have hst : s = t := by simpa [exec] using h
    subst hst
    exact Run.nil
  | cons a as ih =>
    simp only [exec, Option.bind_eq_some_iff] at h
    obtain ⟨u, hu, hrest⟩ := h
    have hone : Run (Step step) s [a] u := Run.single hu
    simpa using hone.append (ih hrest)

/-- A computed value with the property `p` shows that there is one. -/
theorem exists_of_any {o : Option σ} {p : σ → Prop} [DecidablePred p]
    (h : o.any (fun x => decide (p x)) = true) : ∃ x, o = some x ∧ p x := by
  obtain ⟨x, hx, hp⟩ := (Option.any_eq_true ..).1 h
  exact ⟨x, hx, of_decide_eq_true hp⟩

/-- A computation that ends in a state with the property `p` shows a run to such a state. -/
theorem exec_exists (step : σ → α → Option σ) (s : σ) (as : List α) {p : σ → Prop} [DecidablePred p]
    (h : (exec step s as).any (fun t => decide (p t)) = true) :
    ∃ t, Run (Step step) s as t ∧ p t := by
  obtain ⟨t, ht, hp⟩ := exists_of_any h
  exact ⟨t, exec_run ht, hp⟩

/-- A run executed with a decidable guard checked before each step is a run of the guarded steps. -/
theorem exec_guarded {ok : σ → α → Prop} [∀ s a, Decidable (ok s a)]
    (h : exec (fun s a => if ok s a then step s a else none) s as = some t) :
    Run (Guarded ok (Step step)) s as t := by
  refine (exec_run h).mono fun u a v huv => ?_
  simp only [Step] at huv
  by_cases hok : ok u a
  · rw [if_pos hok] at huv
    exact ⟨hok, huv⟩
  · rw [if_neg hok] at huv
    cases huv

section Except

variable {ε : Type*} {step : σ → α → Except ε σ}

theorem eq_ok_of_toOption {x : Except ε σ} (h : x.toOption = some s) : x = .ok s := by
  cases x with
  | error e => simp [Except.toOption] at h
  | ok t => simpa [Except.toOption] using h

/-- A run executed by a step function that may fail. -/
theorem exec_ok (h : exec (fun s a => (step s a).toOption) s as = some t) :
    Run (fun s a t => step s a = .ok t) s as t :=
  (exec_run h).mono fun _ _ _ hst => eq_ok_of_toOption hst

theorem exec_guarded_ok {ok : σ → α → Prop} [∀ s a, Decidable (ok s a)]
    (h : exec (fun s a => if ok s a then (step s a).toOption else none) s as = some t) :
    Run (Guarded ok fun s a t => step s a = .ok t) s as t :=
  (exec_guarded h).mono fun _ _ _ hst => ⟨hst.1, eq_ok_of_toOption hst.2⟩

end Except

end Exec

/-! ## Computations that may fail -/

/-- The value of the computation satisfies `Q`, or its error satisfies `E`. -/
def Outcome {ε : Type*} (E : ε → Prop) (Q : α → Prop) : Except ε α → Prop
  | .ok a => Q a
  | .error e => E e

section Outcome

universe u v

variable {ε : Type u} {α β : Type v} {E : ε → Prop} {Q Q' : α → Prop} {x : Except ε α} {a : α}

theorem Outcome.ok (h : Outcome E Q x) (hx : x = .ok a) : Q a := by
  subst hx
  exact h

theorem Outcome.error {e : ε} (h : Outcome E Q x) (hx : x = .error e) : E e := by
  subst hx
  exact h

theorem Outcome.mono (hQ : ∀ a, Q a → Q' a) (h : Outcome E Q x) : Outcome E Q' x := by
  cases x with
  | ok a => exact hQ a h
  | error e => exact h

/-- **The rule of sequential composition.** -/
theorem Outcome.bind {R : β → Prop} {f : α → Except ε β} (h : Outcome E Q x)
    (hf : ∀ a, Q a → Outcome E R (f a)) : Outcome E R (x >>= f) := by
  cases x with
  | ok a => exact hf a h
  | error e => exact h

end Outcome

end SystemCallLearn.Lib
