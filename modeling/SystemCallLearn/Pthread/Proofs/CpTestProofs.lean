import SystemCallLearn.Pthread.CpTest
import SystemCallLearn.Pthread.Proofs.BlockQueueProofs
import SystemCallLearn.Lib.Measure

/-!
# One producer and one consumer

With one thread on each side a waiting thread is alone: nobody overtakes it between its signal and
its return from the wait, so the `if` in front of the wait is enough (`Pair.waitOver`). The two
threads never sleep at the same time, if the queue has at least two places; with fewer they block
each other. Nobody waits in a loop, so the consumer gets its values at a rate that depends on the
number of steps alone.
-/

namespace SystemCallLearn.Pthread.CpTest

open SystemCallLearn.Lib BlockQueue

variable {q q' : Queue} {a : Act Int Kind} {k : Kind}

/-- A step of the program. -/
abbrev Steps : Queue → Act Int Kind → Queue → Prop := Guarded Allowed (Step step)

/-- A thread is inside a call of its own side. -/
def Own (q : Queue) : Prop := ∀ k op st, q.point k = .call op st → op.kind = k

/-- The invariant of the two threads. A sleeper of a side with excess is about to be signalled, and
    a thread that has been woken still finds the excess for which it was. -/
structure Pair (q : Queue) : Prop where
  own : Own q
  asleep : ∀ k, (q.point k).asleep k = true →
    q.excess k ≤ 0 ∨ ∃ op, q.point k.other = .call op .signal
  woken : ∀ k op, q.point k = .call op .wake → 0 < q.excess k
  apart : 2 ≤ q.cap → (q.point .push).asleep .push = false ∨ (q.point .pop).asleep .pop = false

theorem pair_new (cap : Nat) : Pair (new cap) where
  own := by
    intro k op st hk
    cases hk
  asleep := by
    intro k hk
    cases hk
  woken := by
    intro k op hk
    cases hk
  apart := fun _ => .inl rfl

theorem other_other (k : Kind) : k.other.other = k := by cases k <;> rfl

theorem other_ne (k : Kind) : k.other ≠ k := by cases k <;> decide

theorem eq_other {i k : Kind} (h : i ≠ k) : i = k.other := by
  cases i <;> cases k <;> first | rfl | exact absurd rfl h

/-! ## What a step keeps -/

theorem kind_of_call {i : Kind} {op : Op Int} {st : Stage} (h : op.kind = i) :
    ∀ op' st', Point.call op st = .call op' st' → op'.kind = i := by
  intro op' st' hop
  obtain ⟨rfl, -⟩ := Point.call.inj hop
  exact h

/-- One thread moves, with or without changing the queue. If it goes to sleep, it does so without
    excess and not beside the other thread; a sleeper on the other side stays without excess, or
    the mover is about to decide on its signal. -/
theorem Pair.move (h : Pair q) {i : Kind} {pt : Point Int}
    (hpoint : q'.point = Function.update q.point i pt) (hcap : q'.cap = q.cap)
    (hown : ∀ op st, pt = .call op st → op.kind = i) (hwake : ∀ op, pt ≠ .call op .wake)
    (hsleep : pt.asleep i = true → q'.excess i ≤ 0 ∧
      (2 ≤ q.cap → (q.point i.other).asleep i.other = false))
    (hgrow : q.excess i.other ≤ q'.excess i.other)
    (hother : (q.point i.other).asleep i.other = true →
      q'.excess i.other ≤ 0 ∨ ∃ op, pt = .call op .signal) : Pair q' := by
  have hself : q'.point i = pt := by rw [hpoint, Function.update_self]
  have hrest : q'.point i.other = q.point i.other := by
    rw [hpoint, Function.update_of_ne (other_ne i)]
  refine ⟨?_, ?_, ?_, ?_⟩
  · intro k op st hk
    by_cases hki : k = i
    · subst hki
      exact hown op st (hself.symm.trans hk)
    · obtain rfl := eq_other hki
      exact h.own _ op st (hrest ▸ hk)
  · intro k hk
    by_cases hki : k = i
    · subst hki
      exact .inl (hsleep (hself ▸ hk)).1
    · obtain rfl := eq_other hki
      rw [other_other, hself]
      exact hother (hrest ▸ hk)
  · intro k op hk
    by_cases hki : k = i
    · subst hki
      exact absurd (hself.symm.trans hk) (hwake op)
    · obtain rfl := eq_other hki
      have hold := h.woken _ op (hrest ▸ hk)
      omega
  · intro hc
    rw [hcap] at hc
    have hpair : pt.asleep i = false ∨ (q.point i.other).asleep i.other = false := by
      cases hsl : pt.asleep i with
      | false => exact .inl rfl
      | true => exact .inr ((hsleep hsl).2 hc)
    rw [← hself, ← hrest] at hpair
    cases i with
    | push => exact hpair
    | pop => exact hpair.symm

/-- A waiting side has no excess, so its sleeper is alone if there are two places at least. -/
theorem Pair.alone (h : Pair q) {op : Op Int} (hi : q.point k = .call op .test)
    (hw : q.mustWait k = true) (hcap : 2 ≤ q.cap) :
    (q.point k.other).asleep k.other = false := by
  by_contra hsl
  rcases h.asleep k.other (by simpa using hsl) with hle | ⟨op', hop⟩
  · cases k with
    | push =>
      have hlen : q.bq.length = q.cap := by simpa [mustWait, isFull] using hw
      simp only [Kind.other, excess] at hle
      omega
    | pop =>
      have hlen : q.bq.length = 0 := by simpa [mustWait, isEmpty] using hw
      simp only [Kind.other, excess] at hle
      omega
  · rw [other_other, hi] at hop
    cases hop

/-- A sleeper stays without excess as long as nobody is about to decide on its signal. -/
theorem Pair.undisturbed (h : Pair q) {i : Kind} (hi : ∀ op, q.point i ≠ .call op .signal)
    (hsl : (q.point i.other).asleep i.other = true) : q.excess i.other ≤ 0 := by
  rcases h.asleep i.other hsl with hle | ⟨op, hop⟩
  · exact hle
  · rw [other_other] at hop
    exact absurd hop (hi op)

/-- Only a signal that is due is sent. -/
theorem signal_due {i j : Kind} (h : q.signal i (some j) = some q') :
    ∃ op, q.point i = .call op .signal ∧ 0 < q.excess op.kind.other := by
  cases hi : q.point i with
  | idle | undefined => simp [signal, hi] at h
  | call op st =>
    cases st with
    | signal =>
      refine ⟨op, rfl, ?_⟩
      by_cases hs : q.mustSignal op.kind = true
      · cases hk : op.kind with
        | push =>
          have hlen : q.bq.length > q.cap / 2 := by simpa [mustSignal, hk] using hs
          simp only [Kind.other, excess]
          omega
        | pop =>
          have hlen : q.bq.length < q.cap / 2 := by simpa [mustSignal, hk] using hs
          simp only [Kind.other, excess]
          omega
      · simp [signal, hi, hs] at h
    | _ => simp [signal, hi] at h

/-- A signal wakes the thread of the other side. -/
theorem Pair.signal (h : Pair q) {i j : Kind} {op op' : Op Int}
    (hi : q.point i = .call op .signal) (hj : q.point j = .call op' .sleep)
    (hk : op'.kind = op.kind.other) (hdue : 0 < q.excess op.kind.other) :
    Pair ((q.move j (.call op' .wake)).move i (.call op .unlock)) := by
  obtain rfl : op.kind = i := h.own i op _ hi
  obtain rfl : j = op.kind.other := by rw [← h.own j op' _ hj, hk]
  have hself : ((q.move op.kind.other (.call op' .wake)).move op.kind (.call op .unlock)).point
      op.kind = .call op .unlock := Function.update_self _ _ _
  have hrest : ((q.move op.kind.other (.call op' .wake)).move op.kind (.call op .unlock)).point
      op.kind.other = .call op' .wake := by
    simp only [BlockQueue.move]
    rw [Function.update_of_ne (other_ne op.kind), Function.update_self]
  refine ⟨?_, ?_, ?_, ?_⟩
  · intro k op'' st hk'
    by_cases hki : k = op.kind
    · rw [hki, hself] at hk'
      obtain ⟨rfl, -⟩ := Point.call.inj hk'
      exact hki.symm
    · obtain rfl := eq_other hki
      rw [hrest] at hk'
      obtain ⟨rfl, -⟩ := Point.call.inj hk'
      exact hk
  · intro k hsl
    by_cases hki : k = op.kind
    · rw [hki, hself] at hsl
      cases hsl
    · obtain rfl := eq_other hki
      rw [hrest] at hsl
      cases hsl
  · intro k op'' hk'
    by_cases hki : k = op.kind
    · rw [hki, hself] at hk'
      cases hk'
    · obtain rfl := eq_other hki
      exact hdue
  · intro _
    have hnone : ∀ k, (((q.move op.kind.other (.call op' .wake)).move op.kind
        (.call op .unlock)).point k).asleep k = false := by
      intro k
      by_cases hki : k = op.kind
      · rw [hki, hself]
        rfl
      · obtain rfl := eq_other hki
        rw [hrest]
        rfl
    exact .inl (hnone .push)

/-- **Every step keeps the invariant.** -/
theorem Pair.step (h : Pair q) (hst : Steps q a q') : Pair q' := by
  obtain ⟨hok, hst⟩ := hst
  cases step_moves hst with
  | @enter i op hi =>
    have hkind : op.kind = i := by
      cases i <;> cases op <;> first | rfl | exact hok.elim
    exact h.move rfl rfl (kind_of_call hkind) (by simp) (by simp [Point.asleep]) le_rfl fun hsl =>
      .inl (h.undisturbed (by simp [hi]) hsl)
  | @lock i op hi hm =>
    exact h.move rfl rfl (kind_of_call (h.own i _ _ hi)) (by simp) (by simp [Point.asleep]) le_rfl
      fun hsl => .inl (h.undisturbed (by simp [hi]) hsl)
  | @sleep i op hi hw =>
    obtain rfl := h.own i op _ hi
    exact h.move rfl rfl (kind_of_call rfl) (by simp)
      (fun _ => ⟨excess_of_mustWait hw, h.alone hi hw⟩) le_rfl
      fun hsl => .inl (h.undisturbed (by simp [hi]) hsl)
  | @pass i op hi hw =>
    exact h.move rfl rfl (kind_of_call (h.own i _ _ hi)) (by simp) (by simp [Point.asleep]) le_rfl
      fun hsl => .inl (h.undisturbed (by simp [hi]) hsl)
  | @waitReturns i op hi hm =>
    exact h.move rfl rfl (kind_of_call (h.own i _ _ hi)) (by simp) (by simp [Point.asleep]) le_rfl
      fun hsl => .inl (h.undisturbed (by simp [hi]) hsl)
  | @push i v hi =>
    obtain rfl : Kind.push = i := h.own i _ _ hi
    refine h.move rfl rfl (kind_of_call rfl) (by simp) (by simp [Point.asleep]) ?_
      fun _ => .inr ⟨_, rfl⟩
    simp only [Kind.other, excess, BlockQueue.move, List.length_append, List.length_singleton]
    omega
  | @pop i v rest hi hq =>
    obtain rfl : Kind.pop = i := h.own i _ _ hi
    refine h.move rfl rfl (kind_of_call rfl) (by simp) (by simp [Point.asleep]) ?_
      fun _ => .inr ⟨_, rfl⟩
    simp only [Kind.other, excess, BlockQueue.move, hq, List.length_cons]
    omega
  | @popEmpty i hi hq =>
    exact h.move rfl rfl (by simp) (by simp) (by simp [Point.asleep]) le_rfl fun hsl =>
      .inl (h.undisturbed (by simp [hi]) hsl)
  | @quiet i op hi hs =>
    obtain rfl := h.own i op _ hi
    exact h.move rfl rfl (kind_of_call rfl) (by simp) (by simp [Point.asleep]) le_rfl fun _ =>
      .inl (excess_of_quiet hs)
  | @nobody i op hi hnone =>
    obtain rfl := h.own i op _ hi
    refine h.move rfl rfl (kind_of_call rfl) (by simp) (by simp [Point.asleep]) le_rfl ?_
    intro hsl
    rw [hnone op.kind.other] at hsl
    cases hsl
  | @signal i j op op' hi hj hk =>
    obtain ⟨op'', hi', hdue⟩ := signal_due hst
    rw [hi] at hi'
    obtain ⟨rfl, -⟩ := Point.call.inj hi'
    exact h.signal hi hj hk hdue
  | @unlock i op hi =>
    exact h.move rfl rfl (by simp) (by simp) (by simp [Point.asleep]) le_rfl fun hsl =>
      .inl (h.undisturbed (by simp [hi]) hsl)
  | awake hj => exact hok.elim

/-- A thread that was woken still finds what it was woken for. -/
theorem Pair.waitOver (h : Pair q) (hok : Allowed q a) : q.waitOver a = true := by
  cases a with
  | run i =>
    cases hi : q.point i with
    | idle | undefined => simp [BlockQueue.waitOver, hi]
    | call op st =>
      cases st with
      | wake =>
        obtain rfl := h.own i op _ hi
        have hexcess := h.woken op.kind op hi
        cases hw : q.mustWait op.kind with
        | false => simp [BlockQueue.waitOver, hi, hw]
        | true =>
          have hle := excess_of_mustWait hw
          omega
      | _ => simp [BlockQueue.waitOver, hi]
  | _ => rfl

/-! ## The values -/

/-- `producter` has made the value. -/
def Made (v : Int) : Prop := ∃ rand, v = data rand

/-- The values pushed, and those about to be, have been made. -/
structure Values (q : Queue) : Prop where
  pushed : ∀ v ∈ q.pushed, Made v
  calls : ∀ k v st, q.point k = .call (.push v) st → Made v

theorem Values.move (h : Values q) {i : Kind} {pt : Point Int} {m : Option Kind}
    (hpt : ∀ v st, pt = .call (.push v) st → Made v) :
    Values { q.move i pt with mtx := m } := by
  refine ⟨h.pushed, ?_⟩
  intro k v st hk
  by_cases hki : k = i
  · subst hki
    exact hpt v st (by simpa [BlockQueue.move] using hk)
  · exact h.calls k v st (by simpa [BlockQueue.move, hki] using hk)

/-- A thread that stays in its call. -/
theorem Values.keep (h : Values q) {i : Kind} {op : Op Int} {st st' : Stage} {m : Option Kind}
    (hi : q.point i = .call op st) : Values { q.move i (.call op st') with mtx := m } := by
  apply h.move
  intro v st'' hop
  obtain ⟨rfl, -⟩ := Point.call.inj hop
  exact h.calls i v st hi

theorem Values.step (h : Values q) (hst : Steps q a q') : Values q' := by
  obtain ⟨hok, hst⟩ := hst
  cases step_moves hst with
  | @enter i op hi =>
    apply h.move
    intro v st hop
    obtain ⟨rfl, -⟩ := Point.call.inj hop
    cases i with
    | push => exact hok
    | pop => exact hok.elim
  | lock hi _ | sleep hi _ | pass hi _ | waitReturns hi _ | quiet hi _ | nobody hi _ =>
    exact h.keep hi
  | @push i v hi =>
    refine ⟨?_, (h.keep (m := q.mtx) hi).calls⟩
    intro w hw
    rcases List.mem_append.1 hw with hold | hnew
    · exact h.pushed w hold
    · rw [List.mem_singleton.1 hnew]
      exact h.calls i v _ hi
  | pop hi hq => exact ⟨h.pushed, (h.keep (m := q.mtx) hi).calls⟩
  | popEmpty hi hq | unlock hi => exact h.move (by simp)
  | @signal i j op op' hi hj hk =>
    have hij : i ≠ j := by
      rintro rfl
      rw [hi] at hj
      cases hj
    have hi' : (q.move j (.call op' .wake)).point i = .call op .signal := by
      simpa [BlockQueue.move, hij] using hi
    exact (h.keep (m := q.mtx) hj).keep (m := q.mtx) hi'
  | awake hj => exact hok.elim

theorem Made.range {v : Int} (h : Made v) : 1 ≤ v ∧ v ≤ 20 := by
  obtain ⟨rand, rfl⟩ := h
  unfold data
  omega

/-! ## The number of steps -/

/-- How many steps the thread has run since it last changed the queue, or since the start of its
    loop. -/
def rank : Point Int → Nat
  | .call _ .signal => 0
  | .call _ .unlock => 1
  | .idle => 2
  | .call _ .lock => 3
  | .call _ .test => 4
  | .call _ .sleep | .call _ .wake => 5
  | .call _ .body => 6
  | .undefined => 7

/-- The measure: seven for each change of the queue, and what the threads have run since. -/
def progress (q : Queue) : Nat :=
  7 * (q.pushed.length + q.popped.length) + (rank (q.point .push) + rank (q.point .pop))

/-- Moving one thread changes the ranks by what the two points differ. -/
theorem rank_update (f : Kind → Point Int) (i : Kind) (pt : Point Int) :
    rank (Function.update f i pt .push) + rank (Function.update f i pt .pop) + rank (f i) =
      rank (f .push) + rank (f .pop) + rank pt := by
  cases i with
  | push =>
    rw [Function.update_self, Function.update_of_ne (by decide)]
    omega
  | pop =>
    rw [Function.update_self, Function.update_of_ne (by decide)]
    omega

/-- A thread goes on to a point of higher rank. -/
theorem progress_move {i : Kind} {pt : Point Int} {m : Option Kind}
    (h : rank (q.point i) < rank pt) : progress q + 1 ≤ progress { q.move i pt with mtx := m } := by
  have hrank := rank_update q.point i pt
  simp only [progress, BlockQueue.move]
  omega

/-- **Nobody runs in circles**: every step raises the measure. -/
theorem progress_step (hst : Steps q a q') : progress q + 1 ≤ progress q' := by
  obtain ⟨hok, hst⟩ := hst
  cases step_moves hst with
  | enter hi | lock hi _ | sleep hi _ | pass hi _ | waitReturns hi _ | popEmpty hi _
  | quiet hi _ | nobody hi _ | unlock hi => exact progress_move (by simp [hi, rank])
  | @push i v hi =>
    have hrank := rank_update q.point i (.call (.push v) .signal)
    rw [hi] at hrank
    simp only [progress, BlockQueue.move, List.length_append, List.length_singleton]
    simp only [rank] at hrank ⊢
    omega
  | @pop i v rest hi hq =>
    have hrank := rank_update q.point i (.call .pop .signal)
    rw [hi] at hrank
    simp only [progress, BlockQueue.move, List.length_append, List.length_singleton]
    simp only [rank] at hrank ⊢
    omega
  | @signal i j op op' hi hj hk =>
    -- the sleeper stays at its rank
    have hij : i ≠ j := by
      rintro rfl
      rw [hi] at hj
      cases hj
    have hwoken : progress (q.move j (.call op' .wake)) = progress q := by
      have hrank := rank_update q.point j (.call op' .wake)
      rw [hj] at hrank
      simp only [progress, BlockQueue.move]
      simp only [rank] at hrank ⊢
      omega
    rw [← hwoken]
    exact progress_move (m := q.mtx) (by simp [BlockQueue.move, hij, hi, rank])
  | awake hj => exact hok.elim

/-! ## Every run -/

variable {cap : Nat} {as : List (Act Int Kind)}

/-- The invariants of the program. -/
structure Kept (cap : Nat) (q : Queue) : Prop where
  pair : Pair q
  bounded : q.Bounded
  values : Values q
  cap : q.cap = cap
  conserves : q.history.Conserves

theorem kept_new (cap : Nat) : Kept cap (new cap) where
  pair := pair_new cap
  bounded := new_bounded cap
  values := by
    refine ⟨fun v hv => (List.not_mem_nil hv).elim, ?_⟩
    intro k v st hk
    cases hk
  cap := rfl
  conserves := Fifo.empty_conserves

theorem Kept.step (h : Kept cap q) (hst : Steps q a q') : Kept cap q' where
  pair := h.pair.step hst
  bounded := h.bounded.step (h.pair.waitOver hst.1) hst.2
  values := h.values.step hst
  cap := (step_cap hst.2).trans h.cap
  conserves := by
    obtain ⟨bs, hrun⟩ := step_history hst.2
    exact hrun.invariant (fun _ _ _ => Fifo.step_conserves) h.conserves

/-- **The run lemma.** -/
theorem kept_run (h : Run Steps (new cap) as q) : Kept cap q :=
  h.invariant (fun _ _ _ hI hst => hI.step hst) (kept_new cap)

/-- **The queue of `CpTest.cc` is safe.** With one producer and one consumer the `if` in front of
    the wait is enough: in every run in which no thread wakes by itself the queue holds at most `cap`
    values, the consumer never reads an empty queue, and it gets the values that the producer has
    made, in their order, up to those that still wait in the queue. -/
theorem cpTest_safe (cap : Nat) (as : List (Act Int Kind)) (q : Queue)
    (h : Run Steps (new cap) as q) :
    q.bq.length ≤ cap ∧ (∀ k, q.point k ≠ .undefined) ∧ q.pushed = q.popped ++ q.bq ∧
      ∀ v ∈ q.popped, 1 ≤ v ∧ v ≤ 20 := by
  have hkept := kept_run h
  have hpushed : q.pushed = q.popped ++ q.bq := hkept.conserves
  refine ⟨hkept.cap ▸ hkept.bounded.size, hkept.bounded.defined, hpushed, ?_⟩
  intro v hv
  exact (hkept.values.pushed v (hpushed ▸ List.mem_append_left _ hv)).range

theorem made_seven : Made 7 := ⟨6, rfl⟩

/-- The producer makes nothing but 7. -/
def onlySeven : Act Int Kind → Bool
  | .enter .push (.push v) => decide (v = 7)
  | .enter .pop .pop | .run _ | .signal _ _ => true
  | _ => false

theorem allowed_of_seven (h : onlySeven a = true) (q : Queue) : Allowed q a := by
  cases a with
  | enter i op =>
    cases i with
    | push =>
      cases op with
      | push v =>
        obtain rfl : v = 7 := of_decide_eq_true h
        exact made_seven
      | pop => cases h
    | pop =>
      cases op with
      | push v => cases h
      | pop => trivial
  | run i => trivial
  | signal i target => trivial
  | awake j => cases h

/-- A run computed step by step is a run of the program. -/
theorem exec_steps {q₀ : Queue} (hok : ∀ a ∈ as, onlySeven a = true)
    (h : exec step q₀ as = some q) : Run Steps q₀ as q :=
  (exec_run h).guarded fun a ha => allowed_of_seven (hok a ha)

/-- A call of `Push` that signals nobody. -/
def pushSeven : List (Act Int Kind) := .enter .push (.push 7) :: List.replicate 5 (.run .push)

/-- A call of `Push` that sends its signal to `target`. -/
def pushSignal (target : Option Kind) : List (Act Int Kind) :=
  .enter .push (.push 7) :: List.replicate 3 (.run .push) ++ [.signal .push target, .run .push]

/-- The consumer sleeps at the empty queue until it is more than half full. The producer fills it
    and sleeps, the consumer takes values until it is less than half full, and the producer
    returns. -/
def bothWait : List (Act Int Kind) := List.flatten
  [[.enter .pop .pop, .run .pop, .run .pop],
    pushSeven, pushSeven, pushSignal (some .pop), List.replicate 4 (.run .pop),
    pushSignal none, pushSignal none, pushSignal none,
    [.enter .push (.push 7), .run .push, .run .push],
    (List.replicate 3 (.enter .pop .pop :: List.replicate 5 (.run .pop))).flatten,
    .enter .pop .pop :: List.replicate 3 (.run .pop),
    [.signal .pop (some .push), .run .pop], List.replicate 4 (.run .push)]

theorem exists_bothWait : ∃ q, Run Steps (new defaultCap) bothWait q ∧
    q.popped = List.replicate 5 7 := by
  have hexec : ((exec step (new defaultCap : Queue) bothWait).any fun q =>
      decide (q.popped = List.replicate 5 7)) = true := by decide +kernel
  obtain ⟨q, hq, hpopped⟩ := exists_of_any hexec
  exact ⟨q, exec_steps (by decide +kernel) hq, hpopped⟩

/-- Both threads sleep, are signalled and return, and five values have been consumed. -/
theorem cpTest_safe_waits : ∃ q, Run Steps (new defaultCap) bothWait q ∧
    q.popped = List.replicate 5 7 ∧ q.bq.length ≤ defaultCap ∧ (∀ k, q.point k ≠ .undefined) ∧
    q.pushed = q.popped ++ q.bq ∧ ∀ v ∈ q.popped, 1 ≤ v ∧ v ≤ 20 := by
  obtain ⟨q, hrun, hpopped⟩ := exists_bothWait
  exact ⟨q, hrun, hpopped, cpTest_safe defaultCap bothWait q hrun⟩

/-! ## Deadlock -/

/-- Something can happen. -/
def CanStep (q : Queue) : Prop := ∃ a q', Steps q a q'

theorem canStep (a : Act Int Kind) (hok : Allowed q a) (h : (step q a).isSome = true) :
    CanStep q := by
  obtain ⟨q', hq'⟩ := Option.isSome_iff_exists.1 h
  exact ⟨a, q', hok, hq'⟩

/-- A thread that does not sleep can go on when the mutex is free. -/
theorem step_free (hb : q.Bounded) (hown : Own q) (hm : q.mtx = none)
    (hk : (q.point k).asleep k = false) : CanStep q := by
  have houtside : (q.point k).inside = false := by
    have howner := hb.owner
    rw [hm] at howner
    exact howner.outside k
  cases hi : q.point k with
  | undefined => exact absurd hi (hb.defined k)
  | idle =>
    cases k with
    | push => exact canStep (.enter .push (.push 7)) made_seven (by simp [step, enter, hi])
    | pop => exact canStep (.enter .pop .pop) trivial (by simp [step, enter, hi])
  | call op st =>
    rw [hi] at hk houtside
    cases st with
    | lock | wake => exact canStep (.run k) trivial (by simp [step, run, hi, lockQueue, hm])
    | sleep => simp [Point.asleep, hown k op _ hi] at hk
    | test | body | signal | unlock => cases houtside

/-- The signal that is due can be sent, to the sleeper if there is one. -/
theorem step_signal {op : Op Int} (hi : q.point op.kind = .call op .signal)
    (hs : q.mustSignal op.kind = true) : CanStep q := by
  cases hsl : (q.point op.kind.other).asleep op.kind.other with
  | true =>
    obtain ⟨op', hj, hkind⟩ := Point.asleep_iff.1 hsl
    exact canStep (.signal op.kind (some op.kind.other)) trivial
      (by simp [step, signal, hi, hs, BlockQueue.awake, hj, Point.asleep, hkind])
  | false =>
    have hnone : ∀ j, (q.point j).asleep op.kind.other = false := by
      intro j
      by_cases hj : j = op.kind
      · rw [hj, hi]
        rfl
      · rw [eq_other hj]
        exact hsl
    exact canStep (.signal op.kind none) trivial (by simp [step, signal, hi, hs, hnone])

/-- The owner of the mutex can go on. -/
theorem step_owner (hb : q.Bounded) (hown : Own q) (hm : q.mtx = some k) : CanStep q := by
  have hinside : (q.point k).inside = true := (hb.owner k).1 hm
  cases hi : q.point k with
  | undefined => exact absurd hi (hb.defined k)
  | idle =>
    rw [hi] at hinside
    cases hinside
  | call op st =>
    rw [hi] at hinside
    obtain rfl := hown k op st hi
    cases st with
    | lock | sleep | wake => cases hinside
    | test =>
      cases hw : q.mustWait op.kind <;>
        exact canStep (.run op.kind) trivial (by simp [step, run, hi, hw])
    | body | unlock => exact canStep (.run op.kind) trivial (by simp [step, run, hi])
    | signal =>
      cases hs : q.mustSignal op.kind with
      | false => exact canStep (.run op.kind) trivial (by simp [step, run, hi, hs])
      | true => exact step_signal hi hs

/-- With two places the two threads do not block each other. -/
theorem Kept.canStep (h : Kept cap q) (hcap : 2 ≤ cap) : CanStep q := by
  cases hm : q.mtx with
  | some k => exact step_owner h.bounded h.pair.own hm
  | none =>
    rcases h.pair.apart (h.cap ▸ hcap) with hk | hk
    · exact step_free h.bounded h.pair.own hm hk
    · exact step_free h.bounded h.pair.own hm hk

/-- When both threads sleep nothing happens any more. -/
theorem final_of_asleep (h : ∀ k, (q.point k).asleep k = true) : Final Steps q := by
  rintro a q' ⟨hok, hst⟩
  have hsleep : ∀ k, ∃ op, q.point k = .call op .sleep := by
    intro k
    obtain ⟨op, hop, -⟩ := Point.asleep_iff.1 (h k)
    exact ⟨op, hop⟩
  cases step_moves hst with
  | @enter i _ hi | @lock i _ hi _ | @sleep i _ hi _ | @pass i _ hi _ | @waitReturns i _ hi _
  | @push i _ hi | @pop i _ _ hi _ | @popEmpty i hi _ | @quiet i _ hi _ | @nobody i _ hi _
  | @signal i _ _ _ hi _ _ | @unlock i _ hi =>
    obtain ⟨op, hop⟩ := hsleep i
    rw [hi] at hop
    cases hop
  | awake hj => exact hok.elim

/-- With no place, both threads wait at once. -/
def blockEmpty : List (Act Int Kind) :=
  [.enter .push (.push 7), .run .push, .run .push, .enter .pop .pop, .run .pop, .run .pop]

/-- With one place, half of it is none: the producer signals each value, and the consumer, who never
    finds the queue less than half full, signals nobody. -/
def blockOne : List (Act Int Kind) :=
  [.enter .push (.push 7), .run .push, .run .push, .run .push, .signal .push none, .run .push,
    .enter .push (.push 7), .run .push, .run .push,
    .enter .pop .pop, .run .pop, .run .pop, .run .pop, .run .pop, .run .pop,
    .enter .pop .pop, .run .pop, .run .pop]

/-- A computed run that puts both threads to sleep is a deadlock. -/
theorem deadlock_of_exec {as : List (Act Int Kind)} (hok : ∀ a ∈ as, onlySeven a = true)
    (h : ((exec step (new cap : Queue) as).any fun q =>
      decide (∀ k, (q.point k).asleep k = true)) = true) :
    ∃ as q, Run Steps (new cap) as q ∧ Final Steps q := by
  obtain ⟨q, hq, hsleep⟩ := exists_of_any h
  exact ⟨as, q, exec_steps hok hq, final_of_asleep hsleep⟩

/-- **`CpTest.cc` can block exactly when the queue has less than two places.** As long as no thread
    wakes by itself, the program with `cap` places reaches a state in which neither thread can go
    on if and only if `cap` is 0 or 1. -/
theorem cpTest_deadlock_iff (cap : Nat) :
    (∃ as q, Run Steps (new cap) as q ∧ Final Steps q) ↔ cap < 2 := by
  constructor
  · rintro ⟨as, q, hrun, hfinal⟩
    by_contra hcap
    obtain ⟨a, q', hst⟩ := (kept_run hrun).canStep (Nat.le_of_not_lt hcap)
    exact hfinal a q' hst
  · intro hcap
    have hcase : cap = 0 ∨ cap = 1 := by omega
    rcases hcase with rfl | rfl
    · have hok : ∀ a ∈ blockEmpty, onlySeven a = true := by decide
      exact deadlock_of_exec hok (by decide +kernel)
    · have hok : ∀ a ∈ blockOne, onlySeven a = true := by decide
      exact deadlock_of_exec hok (by decide +kernel)

/-- A run of `n` steps has `n` on its measure, and the threads' ranks are small. -/
theorem length_le (h : Run Steps (new cap) as q) :
    as.length ≤ 14 * q.popped.length + 7 * cap + 8 := by
  have hkept := kept_run h
  have hclimb : progress (new cap : Queue) + as.length ≤ progress q :=
    h.climbs (I := fun _ => True) (fun _ _ _ _ _ => trivial) (fun _ _ _ _ hst => progress_step hst)
      trivial
  have hstart : progress (new cap : Queue) = 4 := rfl
  have hrank : ∀ k, rank (q.point k) ≤ 6 := by
    intro k
    cases hi : q.point k with
    | undefined => exact absurd hi (hkept.bounded.defined k)
    | idle => decide
    | call op st => cases st <;> simp [rank]
  have hpushed : q.pushed.length = q.popped.length + q.bq.length := by
    rw [show q.pushed = q.popped ++ q.bq from hkept.conserves, List.length_append]
  have hsize := hkept.bounded.size
  have hcap := hkept.cap
  have hpush := hrank .push
  have hpop := hrank .pop
  unfold progress at hclimb hstart
  omega

/-- **The consumer is never starved.** With two places at least, the program can always go on as
    long as no thread wakes by itself; and whatever the schedule, of `n` steps of the two threads
    together the consumer has got at least `(n - 7 * cap - 8) / 14` values. -/
theorem cpTest_progress (hcap : 2 ≤ cap) (as : List (Act Int Kind)) (q : Queue)
    (h : Run Steps (new cap) as q) :
    (∃ a q', Steps q a q') ∧ as.length ≤ 14 * q.popped.length + 7 * cap + 8 :=
  ⟨(kept_run h).canStep hcap, length_le h⟩

/-- Of the 74 steps of that run three at least have ended in a value for the consumer, by their
    number alone. -/
theorem cpTest_progress_waits : ∃ q, Run Steps (new defaultCap) bothWait q ∧
    (∃ a q', Steps q a q') ∧ bothWait.length = 74 ∧ 3 ≤ q.popped.length := by
  obtain ⟨q, hrun, -⟩ := exists_bothWait
  obtain ⟨hstep, hrate⟩ := cpTest_progress (by decide) bothWait q hrun
  have hlength : bothWait.length = 74 := rfl
  rw [hlength, defaultCap] at hrate
  exact ⟨q, hrun, hstep, hlength, by omega⟩

end SystemCallLearn.Pthread.CpTest
