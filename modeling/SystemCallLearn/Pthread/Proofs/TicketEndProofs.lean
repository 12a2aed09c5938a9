import SystemCallLearn.Pthread.Proofs.TicketProofs
import SystemCallLearn.Lib.Measure
import SystemCallLearn.Lib.ThreadCount

/-!
# The ticket sale ends

Every statement brings the program one step closer to its end: the measure adds up what each thread
has left of its call and the seven statements that each ticket on the counter still costs. So all
runs that cannot be continued have the same length, however the threads are scheduled.
-/

namespace SystemCallLearn.Pthread.Ticket

open SystemCallLearn.Lib

variable {ι : Type} [DecidableEq ι] {s s' : Ticket ι} {l : Sale} {i : ι}

/-- The statements that a thread still runs before its loop ends, if it gets no further ticket. The
    way around the loop after a ticket is part of the seven that the ticket costs. -/
def weight : Point → Nat
  | .lock => 5
  | .test => 4
  | .usleep => 3
  | .print => 2
  | .decrement _ => 1
  | .soldOut => 3
  | .unlock c => if c.res then 7 else 2
  | .ret c => if c.res then 6 else 1
  | .done => 0

theorem weight_eq_zero {pt : Point} : weight pt = 0 ↔ pt = .done := by
  cases pt with
  | unlock c | ret c => cases hc : c.res <;> simp [weight, hc]
  | _ => simp [weight]

/-- What is left of the program. -/
def left [Fintype ι] (s : Ticket ι) : Nat := total weight s.point + 7 * s.tickets.toNat

/-- A thread moves and the counter stays as it is. -/
theorem left_move [Fintype ι] {pt : Point} {mtx : Option ι} {output : List (Message ι)}
    {returned : List Call} (h : weight pt + 1 = weight (s.point i)) :
    left { s.move i pt with mtx := mtx, output := output, returned := returned } + 1 = left s := by
  have htotal := total_update weight s.point i pt
  simp only [left, move]
  omega

/-- **Each step brings the end one step closer.** -/
theorem left_step [Fintype ι] (h : Sim s l) (hst : Step step s i s') : left s' + 1 = left s := by
  have hpoint := h.staged.points i
  unfold Step step at hst
  cases hp : s.point i with
  | lock =>
    cases hm : s.mtx with
    | some j => simp [hp, hm] at hst
    | none =>
      simp only [hp, hm, Option.some.injEq] at hst
      subst hst
      exact left_move (by rw [hp]; rfl)
  | test =>
    simp only [hp, Option.some.injEq] at hst
    subst hst
    refine left_move ?_
    rw [hp]
    split_ifs <;> rfl
  | usleep | print | soldOut =>
    simp only [hp, Option.some.injEq] at hst
    subst hst
    exact left_move (by rw [hp]; rfl)
  | decrement ticket =>
    simp only [hp, Option.some.injEq] at hst
    subst hst
    rw [hp] at hpoint
    obtain ⟨hprinted, -⟩ := hpoint
    have hle := l.le
    have htickets := h.shows.tickets
    have htotal := total_update weight s.point i (.unlock ⟨true, some ticket⟩)
    have hseven : weight (.unlock ⟨true, some ticket⟩) = 7 := rfl
    rw [hp, hseven, show weight (.decrement ticket) = 1 from rfl] at htotal
    simp only [left, move]
    omega
  | unlock c =>
    simp only [hp, Option.some.injEq] at hst
    subst hst
    refine left_move ?_
    rw [hp]
    cases hc : c.res <;> simp [weight, hc]
  | ret c =>
    simp only [hp, Option.some.injEq] at hst
    subst hst
    refine left_move ?_
    rw [hp]
    cases hc : c.res <;> simp [weight, hc]
  | done => simp [hp] at hst

/-! ## Where the runs end -/

/-- A thread that has left its loop has had a call return `false`. -/
def Refused (s : Ticket ι) : Prop := ∀ i, s.point i = .done → ∃ c ∈ s.returned, c.res = false

omit [DecidableEq ι] in
theorem refused_start : Refused (start : Ticket ι) := by
  intro i hi
  cases hi

theorem Refused.move (h : Refused s) {pt : Point} {tickets : Int} {mtx : Option ι}
    {output : List (Message ι)} {decrements : Nat} (hpt : pt ≠ .done) :
    Refused { s.move i pt with
      tickets := tickets, mtx := mtx, output := output, decrements := decrements } := by
  intro j hj
  by_cases hji : j = i
  · subst hji
    exact absurd (by simpa [Ticket.move] using hj) hpt
  · exact h j (by simpa [Ticket.move, hji] using hj)

theorem Refused.step (h : Refused s) (hst : Step step s i s') : Refused s' := by
  unfold Step Ticket.step at hst
  cases hp : s.point i with
  | lock =>
    cases hm : s.mtx with
    | some j => simp [hp, hm] at hst
    | none =>
      simp only [hp, hm, Option.some.injEq] at hst
      subst hst
      exact h.move (by simp)
  | test =>
    simp only [hp, Option.some.injEq] at hst
    subst hst
    exact h.move (by split_ifs <;> simp)
  | usleep | print | decrement _ | soldOut | unlock _ =>
    simp only [hp, Option.some.injEq] at hst
    subst hst
    exact h.move (by simp)
  | ret c =>
    simp only [hp, Option.some.injEq] at hst
    subst hst
    intro j hj
    cases hc : c.res with
    | false => exact ⟨c, List.mem_append_right _ (List.mem_singleton_self c), hc⟩
    | true =>
      by_cases hji : j = i
      · subst hji
        simp [Ticket.move, hc] at hj
      · obtain ⟨c', hc', hres⟩ := h j (by simpa [Ticket.move, hji] using hj)
        exact ⟨c', List.mem_append_left _ hc', hres⟩
  | done => simp [hp] at hst

/-- A thread that is not done can go on, or it waits for one that can. -/
theorem exists_step (h : Sim s l) (hi : s.point i ≠ .done) : ∃ j, (s.step j).isSome = true := by
  have hinside : ∀ j, (s.point j).inside = true → (s.step j).isSome = true := by
    intro j hj
    cases hp : s.point j with
    | lock | ret _ | done =>
      rw [hp] at hj
      cases hj
    | _ => simp [Ticket.step, hp]
  cases hp : s.point i with
  | done => exact absurd hp hi
  | ret c => exact ⟨i, by simp [Ticket.step, hp]⟩
  | lock =>
    cases hm : s.mtx with
    | none => exact ⟨i, by simp [Ticket.step, hp, hm]⟩
    | some j => exact ⟨j, hinside j ((h.staged.owner j).1 hm)⟩
  | test | usleep | print | decrement _ | soldOut | unlock _ =>
    exact ⟨i, hinside i (by rw [hp]; rfl)⟩

/-- Nothing can happen any more exactly when all threads are done. -/
theorem final_iff_done (h : Sim s l) : Final (Step step) s ↔ ∀ i, s.point i = .done := by
  constructor
  · intro hfinal i
    by_contra hi
    obtain ⟨j, hj⟩ := exists_step h hi
    obtain ⟨s', hst⟩ := Option.isSome_iff_exists.1 hj
    exact hfinal j s' hst
  · intro hdone i s' hst
    simp [Step, Ticket.step, hdone i] at hst

omit [DecidableEq ι] in
/-- If there is a thread, all tickets have been sold by then. -/
theorem sold_of_done [Nonempty ι] (h : Sim s l) (hr : Refused s)
    (hdone : ∀ i, s.point i = .done) : l.sold = 1000 := by
  obtain ⟨c, hc, hres⟩ := hr (Classical.arbitrary ι) (hdone _)
  rcases h.returned c hc with ⟨htrue, -⟩ | ⟨-, -, hsold⟩
  · rw [hres] at htrue
    cases htrue
  · exact hsold

variable [Fintype ι]

omit [DecidableEq ι] in
/-- Nothing is left exactly when all threads are done. -/
theorem left_eq_zero [Nonempty ι] (h : Sim s l) (hr : Refused s) :
    left s = 0 ↔ ∀ i, s.point i = .done := by
  have hweights : total weight s.point = 0 ↔ ∀ i, s.point i = .done := by
    rw [total_eq_zero]
    simp only [weight_eq_zero]
  unfold left
  constructor
  · intro hzero
    exact hweights.1 (by omega)
  · intro hdone
    have hsold := sold_of_done h hr hdone
    have htotal := hweights.2 hdone
    have htickets := h.shows.tickets
    omega

/-- **The sale ends.** However the threads are scheduled, a run of `n` threads has at most
    `7000 + 5 * n` steps and can be continued to one that has; that length is reached exactly when
    nobody can go on, and then every thread is done and all 1000 tickets have been sold. -/
theorem ticket_ends [Nonempty ι] {is : List ι} (h : Run (Step step) start is s) :
    is.length ≤ 7000 + 5 * Fintype.card ι ∧
      (∃ is' s', Run (Step step) s is' s' ∧ (is ++ is').length = 7000 + 5 * Fintype.card ι) ∧
      (is.length = 7000 + 5 * Fintype.card ι ↔ Final (Step step) s) ∧
      (Final (Step step) s → (∀ i, s.point i = .done) ∧ s.tickets = 0 ∧ s.decrements = 1000) := by
  have hkeep : ∀ (s : Ticket ι) i s', (∃ l, Sim s l) ∧ Refused s → Step step s i s' →
      (∃ l, Sim s' l) ∧ Refused s' := by
    rintro s i s' ⟨⟨l, hl⟩, hr⟩ hst
    exact ⟨hl.step hst, hr.step hst⟩
  have hleft : ∀ (s : Ticket ι) i s', (∃ l, Sim s l) ∧ Refused s → Step step s i s' →
      left s' + 1 = left s := by
    rintro s i s' ⟨⟨l, hl⟩, -⟩ hst
    exact left_step hl hst
  have hstart : (∃ l, Sim (start : Ticket ι) l) ∧ Refused (start : Ticket ι) :=
    ⟨⟨_, sim_start⟩, refused_start⟩
  have hall : left (start : Ticket ι) = 7000 + 5 * Fintype.card ι := by
    have hlock : total weight (start : Ticket ι).point = 5 * Fintype.card ι :=
      total_const fun _ => rfl
    show total weight (start : Ticket ι).point + 7 * (1000 : Int).toNat = _
    omega
  have hlength := h.descends hkeep hleft hstart
  have hkept := h.invariant hkeep hstart
  obtain ⟨⟨l, hl⟩, hr⟩ := hkept
  have hfinal : is.length = 7000 + 5 * Fintype.card ι ↔ Final (Step step) s := by
    rw [final_iff_done hl, ← left_eq_zero hl hr]
    omega
  refine ⟨by omega, ?_, hfinal, ?_⟩
  · obtain ⟨is', s', hrun, hend⟩ := exists_final hkeep
      (fun s i s' hI hst => Nat.lt_of_succ_le (hleft s i s' hI hst).le) ⟨⟨l, hl⟩, hr⟩
    refine ⟨is', s', hrun, ?_⟩
    have hlength' := (h.append hrun).descends hkeep hleft hstart
    obtain ⟨⟨l', hl'⟩, hr'⟩ := (h.append hrun).invariant hkeep hstart
    have hzero := (left_eq_zero hl' hr').2 ((final_iff_done hl').1 hend)
    omega
  · intro hend
    have hdone := (final_iff_done hl).1 hend
    have hsold := sold_of_done hl hr hdone
    have htickets := hl.shows.tickets
    exact ⟨hdone, by omega, hl.shows.decrements.trans hsold⟩

/-- Thread 0 sells a ticket, and thread 1 the next one before 0 has come back; then comes 2. -/
def begun : List (Fin 5) := List.replicate 6 0 ++ [1, 0] ++ List.replicate 5 1 ++ [2]

/-- The five threads of `main`: this beginning can be continued to 7025 steps and not further, and
    then all are done and everything is sold. -/
theorem ticket_ends_five : ∃ s is' s', Run (Step step) start begun s ∧ s.tickets = 998 ∧
    Run (Step step) s is' s' ∧ (begun ++ is').length = 7025 ∧ Final (Step step) s' ∧
    (∀ i, s'.point i = .done) ∧ s'.tickets = 0 ∧ s'.decrements = 1000 := by
  obtain ⟨s, hbegun, hsold⟩ := exec_exists step (start : Ticket (Fin 5)) begun
    (p := fun s => s.tickets = 998) (by decide +kernel)
  obtain ⟨-, ⟨is', s', hrun, hlength⟩, -⟩ := ticket_ends hbegun
  obtain ⟨-, -, hfinal, hend⟩ := ticket_ends (hbegun.append hrun)
  have hlast := hfinal.1 hlength
  exact ⟨s, is', s', hbegun, hsold, hrun, hlength, hlast, hend hlast⟩

end SystemCallLearn.Pthread.Ticket
