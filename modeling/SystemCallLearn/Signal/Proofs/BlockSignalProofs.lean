import SystemCallLearn.Lib.Lts
import SystemCallLearn.Signal.BlockSignal

/-!
# Twenty rounds without `SIGINT`

Between the two calls of `sigprocmask` the signal 2 is blocked and no other one is, so all that
`show_pending` can show is whether it has been sent yet. The second call delivers it.
-/

namespace SystemCallLearn.Signal.BlockSignal

open SystemCallLearn.Posix
open SystemCallLearn.Lib

variable {deadly mask pending : Sigset} {s s' : BlockSignal} {g : Signals} {sent sent' : List Nat}
  {signo : Nat} {a : Act}

/-- The signal 2 was pending at the start, or has been sent since. -/
def Sent (pending : Sigset) (sent : List Nat) : Prop := pending 2 = true ∨ 2 ∈ sent

instance (pending : Sigset) (sent : List Nat) : Decidable (Sent pending sent) :=
  inferInstanceAs (Decidable (_ ∨ _))

/-- What `show_pending` prints while 2 is blocked and nothing else: the digit of 2 is a one if it was
    sent before, and all others are zero. -/
def digits (pending : Sigset) (sent : List Nat) : List Bool :=
  showPending fun signo => signo == 2 && decide (Sent pending sent)

/-- The signals between the two calls: 2 is blocked, and is pending if it was sent. -/
structure Blocks (pending : Sigset) (sent : List Nat) (g : Signals) : Prop where
  mask : g.mask = inset
  waiting : ∀ signo, g.pending signo = (signo == 2 && decide (Sent pending sent))

/-- The signals after them, if the old mask lets 2 through: it was never sent. -/
structure Restored (pending : Sigset) (sent : List Nat) (g : Signals) : Prop where
  mask : g.mask 2 = false
  unsent : ¬ Sent pending sent

/-- The lines that are printed when the program is at this point after `count` rounds. -/
def Point.lines : Point → Nat → Nat
  | .sleep, count => count + 1
  | .sigprocmask, count | .sigpending, count => count

/-- What holds of every state. -/
structure Inv (mask pending : Sigset) (s : BlockSignal) : Prop where
  lines : s.output.length = s.point.lines s.count
  count : s.point = .sigprocmask → s.count = 0
  first : s.point = .sigprocmask → s.signals.killed = none →
    s.signals.mask = mask ∧ (s.signals.pending 2 = true ↔ Sent pending s.sent)
  outset : s.point ≠ .sigprocmask → s.outset = mask
  blocks : s.point ≠ .sigprocmask → s.count < 20 → s.signals.killed = none →
    Blocks pending s.sent s.signals
  restored : 20 ≤ s.count → s.signals.killed = none → mask 2 = false →
    Restored pending s.sent s.signals
  spared : s.point ≠ .sigprocmask → s.count < 20 → s.signals.killed ≠ some 2
  shown : ∀ x ∈ s.output.take 20, x.digits = digits pending x.sent

/-! ## What a signal does -/

theorem sent_snoc : Sent pending (sent ++ [signo]) ↔ Sent pending sent ∨ signo = 2 := by
  simp only [Sent, List.mem_append, List.mem_singleton, or_assoc, eq_comm]

/-- What a signal discards is not 2, and nothing else is pending. -/
theorem Blocks.discard (h : Blocks pending sent g) (signo : Nat) :
    Blocks pending sent (g.discard signo) := by
  refine ⟨h.mask, ?_⟩
  intro n
  by_cases hn : n = 2
  · subst hn
    rw [Signals.discard_two, h.waiting]
  · have hn' : (n == 2) = false := by simpa using hn
    simp [Signals.discard, hn', h.waiting]

/-- While 2 is blocked it becomes pending, and any other signal is delivered. -/
theorem Blocks.deliver (h : Blocks pending sent g)
    (hlive : (g.deliver deadly signo).killed = none) :
    Blocks pending (sent ++ [signo]) (g.deliver deadly signo) := by
  by_cases htwo : signo = 2
  · subst htwo
    have hmask : g.mask 2 = true := by simp [h.mask, inset]
    have hdeliver : g.deliver deadly 2 =
        { g with pending := Function.update g.pending 2 true } := if_pos hmask
    rw [hdeliver]
    refine ⟨h.mask, ?_⟩
    intro n
    have hsent : Sent pending (sent ++ [2]) := sent_snoc.2 (.inr rfl)
    by_cases hn : n = 2
    · simp [hn, hsent]
    · have hn' : (n == 2) = false := by simpa using hn
      simp [hn, hn', h.waiting]
  · have hmask : ¬ g.mask signo = true := by simp [h.mask, inset, htwo]
    unfold Signals.deliver at hlive ⊢
    rw [if_neg hmask] at hlive ⊢
    have hsent : Sent pending (sent ++ [signo]) ↔ Sent pending sent := by
      rw [sent_snoc]
      simp [htwo]
    split_ifs at hlive ⊢
    refine ⟨h.mask, ?_⟩
    simp only [hsent]
    exact h.waiting

theorem Blocks.raise (h : Blocks pending sent g) (hlive : (g.raise deadly signo).killed = none) :
    Blocks pending (sent ++ [signo]) (g.raise deadly signo) :=
  (h.discard signo).deliver hlive

/-- Once 2 is not blocked it would kill the process. -/
theorem Restored.raise (hdeadly : deadly 2 = true) (h : Restored pending sent g)
    (hlive : (g.raise deadly signo).killed = none) :
    Restored pending (sent ++ [signo]) (g.raise deadly signo) := by
  have htwo : signo ≠ 2 := by
    rintro rfl
    simp [Signals.raise, Signals.deliver, h.mask, hdeadly] at hlive
  refine ⟨?_, ?_⟩
  · unfold Signals.raise Signals.deliver
    split_ifs
    · exact h.mask
    · exact h.mask
    · exact h.mask
  · rw [sent_snoc]
    simp [h.unsent, htwo]

/-- Before the first call 2 is pending if it was sent, or it has killed the process. -/
theorem raise_first (hdeadly : deadly 2 = true)
    (h : g.pending 2 = true ↔ Sent pending sent)
    (hlive : (g.raise deadly signo).killed = none) : (g.raise deadly signo).mask = g.mask ∧
      ((g.raise deadly signo).pending 2 = true ↔ Sent pending (sent ++ [signo])) := by
  rw [sent_snoc, ← h]
  unfold Signals.raise Signals.deliver at hlive ⊢
  split_ifs at hlive ⊢ with hmask hkills
  · refine ⟨rfl, ?_⟩
    by_cases htwo : signo = 2
    · simp [htwo]
    · simp [htwo, Ne.symm htwo]
  · have htwo : signo ≠ 2 := by
      rintro rfl
      exact hkills hdeadly
    simp [htwo]

/-- A signal kills the process by its own number only, and not if it is blocked. -/
theorem raise_spared (hlive : g.killed = none) (hmask : g.mask 2 = true) :
    (g.raise deadly signo).killed ≠ some 2 := by
  unfold Signals.raise Signals.deliver
  split_ifs with hblocked
  · simp [hlive]
  · intro hkilled
    obtain rfl := Option.some.inj hkilled
    exact hblocked hmask
  · simp [hlive]

/-! ## What the two calls do -/

/-- The first call blocks 2 alone. -/
theorem blocks_first (h : g.pending 2 = true ↔ Sent pending sent) :
    Blocks pending sent (g.sigprocmask deadly inset) := by
  have hblocked : ∀ n, (inset n && blockable n) = inset n := by
    intro n
    by_cases hn : n = 2 <;> simp [hn, inset, blockable]
  refine ⟨funext hblocked, ?_⟩
  intro n
  simp only [Signals.sigprocmask, hblocked, ← h]
  by_cases hn : n = 2
  · simp [hn, inset]
  · have hn' : (n == 2) = false := by simpa using hn
    simp [hn', inset]

theorem spared_first : (g.sigprocmask deadly inset).killed ≠ some 2 := by
  intro hkilled
  have hdue := List.find?_some hkilled
  simp [inset, blockable] at hdue

/-- The second call lets 2 through, which kills the process if it was sent. -/
theorem restored_last (hdeadly : deadly 2 = true) (hmask : mask 2 = false)
    (h : Blocks pending sent g) (hlive : (g.sigprocmask deadly mask).killed = none) :
    Restored pending sent (g.sigprocmask deadly mask) := by
  refine ⟨by simp [Signals.sigprocmask, hmask], ?_⟩
  intro hsent
  have hpending : g.pending 2 = true := by simp [h.waiting, hsent]
  have hdue := List.find?_eq_none.1 hlive 2 (by decide)
  simp [hpending, hmask, hdeadly] at hdue

/-! ## Runs -/

theorem inv_start : Inv mask pending (start mask pending) where
  lines := rfl
  count := fun _ => rfl
  first := fun _ _ => ⟨rfl, by simp [Sent, start]⟩
  outset := fun h => absurd rfl h
  blocks := fun h => absurd rfl h
  restored := by
    intro h
    cases h
  spared := fun h => absurd rfl h
  shown := by
    intro x hx
    cases hx

theorem inv_raise (hdeadly : deadly 2 = true) (h : Inv mask pending s)
    (hlive : s.signals.killed = none) (signo : Nat) : Inv mask pending
      { s with signals := s.signals.raise deadly signo, sent := s.sent ++ [signo] } where
  lines := h.lines
  count := h.count
  first := by
    intro hp hlive'
    obtain ⟨hmask, hpending⟩ := h.first hp hlive
    obtain ⟨hsame, hpending'⟩ := raise_first hdeadly hpending hlive'
    exact ⟨hsame.trans hmask, hpending'⟩
  outset := h.outset
  blocks := fun hp hlt hlive' => (h.blocks hp hlt hlive).raise hlive'
  restored := fun hle hlive' hmask => (h.restored hle hlive hmask).raise hdeadly hlive'
  spared := by
    intro hp hlt
    refine raise_spared hlive ?_
    rw [(h.blocks hp hlt hlive).mask]
    rfl
  shown := h.shown

theorem inv_first (h : Inv mask pending s) (hlive : s.signals.killed = none)
    (hp : s.point = .sigprocmask) : Inv mask pending { s with
      point := .sigpending, outset := s.signals.mask,
      signals := s.signals.sigprocmask deadly inset } where
  lines := by
    have hlines := h.lines
    rwa [hp] at hlines
  count := by
    intro hpoint
    cases hpoint
  first := by
    intro hpoint
    cases hpoint
  outset := fun _ => (h.first hp hlive).1
  blocks := fun _ _ _ => blocks_first (h.first hp hlive).2
  restored := by
    intro hle
    have hzero : s.count = 0 := h.count hp
    have htwenty : 20 ≤ s.count := hle
    omega
  spared := fun _ _ => spared_first
  shown := h.shown

theorem inv_show (h : Inv mask pending s) (hlive : s.signals.killed = none)
    (hp : s.point = .sigpending) : Inv mask pending { s with
      point := .sleep, output := s.output ++ [⟨showPending s.signals.pending, s.sent⟩] } where
  lines := by
    have hlines := h.lines
    rw [hp] at hlines
    simp [Point.lines, hlines]
  count := by
    intro hpoint
    cases hpoint
  first := by
    intro hpoint
    cases hpoint
  outset := fun _ => h.outset (by simp [hp])
  blocks := fun _ => h.blocks (by simp [hp])
  restored := h.restored
  spared := fun _ => h.spared (by simp [hp])
  shown := by
    have hlines : s.output.length = s.count := by
      have hlines := h.lines
      rwa [hp] at hlines
    have hshown := h.shown
    by_cases hlt : s.count < 20
    · rw [List.take_of_length_le (by omega)] at hshown
      rw [List.take_of_length_le (by simp; omega)]
      intro x hx
      rcases List.mem_append.1 hx with hold | hnew
      · exact hshown x hold
      · obtain rfl := List.mem_singleton.1 hnew
        exact List.map_congr_left fun n _ => (h.blocks (by simp [hp]) hlt hlive).waiting n
    · rw [List.take_append_of_le_length (by omega)]
      exact hshown

theorem inv_tick (hdeadly : deadly 2 = true) (h : Inv mask pending s)
    (hlive : s.signals.killed = none) (hp : s.point = .sleep) :
    Inv mask pending (s.tick deadly) := by
  have hne : s.point ≠ .sigprocmask := by simp [hp]
  have hlines : s.output.length = s.count + 1 := by
    have hlines := h.lines
    rwa [hp] at hlines
  unfold tick
  split_ifs with hcount
  · have hnineteen : s.count = 19 := Nat.succ.inj hcount
    refine ⟨hlines, ?_, ?_, fun _ => h.outset hne, ?_, ?_, ?_, h.shown⟩
    · intro hpoint
      cases hpoint
    · intro hpoint
      cases hpoint
    · intro _ hlt
      have hlt' : s.count + 1 < 20 := hlt
      omega
    · intro _ hlive' hmask
      have hblocks := h.blocks hne (by omega) hlive
      show Restored pending s.sent (s.signals.sigprocmask deadly s.outset)
      rw [h.outset hne]
      refine restored_last hdeadly hmask hblocks ?_
      rwa [← h.outset hne]
    · intro _ hlt
      have hlt' : s.count + 1 < 20 := hlt
      omega
  · have hcount' : s.count + 1 ≠ 20 := hcount
    refine ⟨hlines, ?_, ?_, fun _ => h.outset hne, ?_, ?_, ?_, h.shown⟩
    · intro hpoint
      cases hpoint
    · intro hpoint
      cases hpoint
    · intro _ hlt hlive
      have hlt' : s.count + 1 < 20 := hlt
      exact h.blocks hne (by omega) hlive
    · intro hle hlive hmask
      have hle' : 20 ≤ s.count + 1 := hle
      exact h.restored (by omega) hlive hmask
    · intro _ hlt
      have hlt' : s.count + 1 < 20 := hlt
      exact h.spared hne (by omega)

theorem inv_step (hdeadly : deadly 2 = true) (h : Inv mask pending s)
    (hst : Step (step deadly) s a s') : Inv mask pending s' := by
  unfold Step step at hst
  split_ifs at hst with hlive
  cases a with
  | raise signo =>
    simp only at hst
    split_ifs at hst
    obtain rfl := Option.some.inj hst
    exact inv_raise hdeadly h hlive signo
  | run =>
    obtain rfl := Option.some.inj hst
    unfold run
    cases hp : s.point with
    | sigprocmask => exact inv_first h hlive hp
    | sigpending => exact inv_show h hlive hp
    | sleep => exact inv_tick hdeadly h hlive hp

/-- **`SIGINT` waits for twenty lines.** In every run, whatever signals are sent and when, each of
    the first twenty lines shows the signal 2 if it was sent before that line, and no other signal.
    Once the program has blocked 2, it does not kill the process before twenty lines are printed; if
    the old mask did not block it, a process that lives after the twentieth round was never sent
    it. -/
theorem sigint_waits (hdeadly : deadly 2 = true) {acts : List Act}
    (h : Run (Step (step deadly)) (start mask pending) acts s) :
    (∀ x ∈ s.output.take 20, x.digits = digits pending x.sent) ∧
      (s.signals.killed = some 2 → s.point = .sigprocmask ∨ 20 ≤ s.output.length) ∧
      (mask 2 = false → 20 ≤ s.count → s.signals.killed = none → ¬ Sent pending s.sent) := by
  have hinv : Inv mask pending s :=
    h.invariant (fun _ _ _ hI hst => inv_step hdeadly hI hst) inv_start
  refine ⟨hinv.shown, ?_, ?_⟩
  · intro hkilled
    by_contra hnot
    rw [not_or] at hnot
    obtain ⟨hne, hfew⟩ := hnot
    have hlines := hinv.lines
    refine hinv.spared hne ?_ hkilled
    cases hp : s.point with
    | sigprocmask => exact absurd hp hne
    | sigpending | sleep =>
      rw [hp] at hlines
      simp only [Point.lines] at hlines
      omega
  · exact fun hmask hle hlive => (hinv.restored hle hlive hmask).unsent

/-- `Ctrl-C` at once, and twenty rounds. -/
def interrupted : List Act := [.run, .raise 2] ++ List.replicate 40 .run

/-- The twenty lines show it, and then it kills the process. -/
theorem sigint_waits_interrupted :
    ∃ s, Run (Step (step fun _ => true)) (start (fun _ => false) fun _ => false) interrupted s ∧
      s.signals.killed = some 2 ∧ s.output.length = 20 ∧
      ∀ x ∈ s.output.take 20, x.digits = digits (fun _ => false) x.sent := by
  obtain ⟨s, hrun, hkilled, hlength⟩ := exec_exists (step fun _ => true)
    (start (fun _ => false) fun _ => false) interrupted
    (p := fun s => s.signals.killed = some 2 ∧ s.output.length = 20) (by decide +kernel)
  exact ⟨s, hrun, hkilled, hlength, (sigint_waits rfl hrun).1⟩

end SystemCallLearn.Signal.BlockSignal
