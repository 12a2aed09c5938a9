import SystemCallLearn.Lib.Lts

/-!
# Measures on the states of a system

A measure that every step raises is at least the length of the run, so that a run can only be as
long as its end is high (`Run.climbs`). A measure that every step lowers bounds the length of all
runs, and every run can be continued to one that cannot be continued (`Run.descends`,
`exists_final`). A measure that some actions raise bounds the length by what they bring in
(`Run.spends`).
-/

namespace SystemCallLearn.Lib

variable {σ α : Type*} {R : σ → α → σ → Prop} {I : σ → Prop} {μ : σ → Nat} {s t : σ} {as : List α}

/-- No step is possible. -/
def Final (R : σ → α → σ → Prop) (s : σ) : Prop := ∀ a t, ¬ R s a t

theorem countP_snoc (p : α → Bool) (as : List α) (a : α) :
    (as ++ [a]).countP p = as.countP p + (p a).toNat := by
  cases hp : p a <;> simp [hp]

/-- **The rule of rising measures.** -/
theorem Run.climbs (hinv : ∀ s a t, I s → R s a t → I t)
    (hstep : ∀ s a t, I s → R s a t → μ s + 1 ≤ μ t) (h0 : I s) (h : Run R s as t) :
    μ s + as.length ≤ μ t := by
  induction h with
  | nil => exact Nat.le_refl _
  | snoc h hst ih =>
    have hone := hstep _ _ _ (h.invariant hinv h0) hst
    rw [List.length_append, List.length_singleton]
    omega

/-- **The rule of credits.** The actions in `p` bring in a credit of `c`, and every step uses up
    one. -/
theorem Run.spends {p : α → Bool} {c : Nat} (hinv : ∀ s a t, I s → R s a t → I t)
    (hstep : ∀ s a t, I s → R s a t → μ t + 1 ≤ μ s + c * (p a).toNat) (h0 : I s)
    (h : Run R s as t) : as.length + μ t ≤ μ s + c * as.countP p := by
  induction h with
  | nil => simp
  | @snoc as t u a h hst ih =>
    have hone := hstep _ _ _ (h.invariant hinv h0) hst
    rw [List.length_append, List.length_singleton, countP_snoc, Nat.mul_add]
    omega

/-- **The rule of falling measures.** -/
theorem Run.falls (hinv : ∀ s a t, I s → R s a t → I t)
    (hstep : ∀ s a t, I s → R s a t → μ t < μ s) (h0 : I s) (h : Run R s as t) :
    as.length + μ t ≤ μ s := by
  have hfall : ∀ s a t, I s → R s a t → μ t + 1 ≤ μ s + 0 * false.toNat :=
    fun s a t hs hst => hstep s a t hs hst
  have hspend : as.length + μ t ≤ μ s + 0 * as.countP fun _ => false := h.spends hinv hfall h0
  simpa using hspend

/-- **The rule of counters.** A quantity that the actions in `p` raise by one. -/
theorem Run.counts {p : α → Bool} (hinv : ∀ s a t, I s → R s a t → I t)
    (hstep : ∀ s a t, I s → R s a t → μ t = μ s + (p a).toNat) (h0 : I s) (h : Run R s as t) :
    μ t = μ s + as.countP p := by
  induction h with
  | nil => simp
  | @snoc as t u a h hst ih =>
    have hone := hstep _ _ _ (h.invariant hinv h0) hst
    rw [countP_snoc]
    omega

/-- The rule for a measure that falls by one in each step. -/
theorem Run.descends (hinv : ∀ s a t, I s → R s a t → I t)
    (hstep : ∀ s a t, I s → R s a t → μ t + 1 = μ s) (h0 : I s) (h : Run R s as t) :
    as.length + μ t = μ s := by
  induction h with
  | nil => exact Nat.zero_add _
  | snoc h hst ih =>
    have hone := hstep _ _ _ (h.invariant hinv h0) hst
    rw [List.length_append, List.length_singleton]
    omega

/-- With a falling measure every state has a run to a final one. -/
theorem exists_final (hinv : ∀ s a t, I s → R s a t → I t)
    (hstep : ∀ s a t, I s → R s a t → μ t < μ s) (h0 : I s) :
    ∃ as t, Run R s as t ∧ Final R t := by
  induction hm : μ s using Nat.strongRecOn generalizing s with
  | ind m ih =>
    by_cases hfinal : Final R s
    · exact ⟨[], s, Run.nil, hfinal⟩
    · unfold Final at hfinal
      push Not at hfinal
      obtain ⟨a, u, hst⟩ := hfinal
      obtain ⟨as, t, hrun, ht⟩ := ih (μ u) (hm ▸ hstep s a u h0 hst) (hinv s a u h0 hst) rfl
      exact ⟨[a] ++ as, t, (Run.single hst).append hrun, ht⟩

end SystemCallLearn.Lib
