import SystemCallLearn.Lib.Trace
import Mathlib.Logic.Function.Basic

/-!
# Sessions

The events of one key start a session, carry data in it and stop it (`Session.step`). The words that
this automaton accepts are complete sessions followed by at most one that is still open
(`session_words`). Keys that are reused go through many sessions.

Many keys at once are a machine on the set of the open keys (`Sessions.step`); the events of one key
in a run of it are a run of the automaton (`sessions_of_key`), whatever happens to the other keys in
between.
-/

namespace SystemCallLearn.Lib

variable {κ δ : Type*}

/-- What happens to a key. -/
inductive SessionEvent (δ : Type*) where
  | start
  | data (d : δ)
  | stop
  deriving DecidableEq

/-- The automaton of one key: whether a session is open. -/
def Session.step : Bool → SessionEvent δ → Option Bool
  | false, .start => some true
  | true, .data _ => some true
  | true, .stop => some false
  | _, _ => none

/-- A session that is still open, with the data so far. -/
def openSession (ds : List δ) : List (SessionEvent δ) := .start :: ds.map .data

/-- A complete session. -/
def wholeSession (ds : List δ) : List (SessionEvent δ) := openSession ds ++ [.stop]

/-- The complete sessions `done`, and the open one, if any. -/
def sessionWord (done : List (List δ)) (cur : Option (List δ)) : List (SessionEvent δ) :=
  done.flatMap wholeSession ++ cur.elim [] openSession

section Word

variable {es : List (SessionEvent δ)} {b : Bool}

theorem openSession_snoc (ds : List δ) (d : δ) :
    openSession (ds ++ [d]) = openSession ds ++ [.data d] := by
  simp [openSession]

theorem sessionWord_start (done : List (List δ)) :
    sessionWord done none ++ [.start] = sessionWord done (some []) := by
  simp [sessionWord, openSession]

theorem sessionWord_data (done : List (List δ)) (ds : List δ) (d : δ) :
    sessionWord done (some ds) ++ [.data d] = sessionWord done (some (ds ++ [d])) := by
  simp [sessionWord, openSession_snoc]

theorem sessionWord_stop (done : List (List δ)) (ds : List δ) :
    sessionWord done (some ds) ++ [.stop] = sessionWord (done ++ [ds]) none := by
  simp [sessionWord, wholeSession]

/-- A word that ends with a start leaves a session open that has no data. -/
theorem cur_of_start {done : List (List δ)} {cur : Option (List δ)}
    (h : sessionWord done cur = es ++ [.start]) : cur = some [] := by
  have hlast : (sessionWord done cur).getLast? = some .start := by
    rw [h, List.getLast?_concat]
  cases cur with
  | none =>
    rcases List.eq_nil_or_concat done with rfl | ⟨done', ds, rfl⟩
    · simp [sessionWord] at hlast
    · rw [List.concat_eq_append, ← sessionWord_stop, List.getLast?_concat] at hlast
      cases hlast
  | some ds =>
    rcases List.eq_nil_or_concat ds with rfl | ⟨ds', d, rfl⟩
    · rfl
    · rw [List.concat_eq_append, ← sessionWord_data, List.getLast?_concat] at hlast
      cases hlast

/-- **The words of the automaton.** -/
theorem session_words (h : Run (Step Session.step) false es b) :
    ∃ done cur, es = sessionWord done cur ∧ b = cur.isSome := by
  induction h with
  | nil => exact ⟨[], none, rfl, rfl⟩
  | @snoc es b c e _ hst ih =>
    obtain ⟨done, cur, rfl, rfl⟩ := ih
    cases cur with
    | none =>
      cases e with
      | start =>
        obtain rfl := Option.some.inj hst
        exact ⟨done, some [], sessionWord_start done, rfl⟩
      | data d => cases hst
      | stop => cases hst
    | some ds =>
      cases e with
      | start => cases hst
      | data d =>
        obtain rfl := Option.some.inj hst
        exact ⟨done, some (ds ++ [d]), sessionWord_data done ds d, rfl⟩
      | stop =>
        obtain rfl := Option.some.inj hst
        exact ⟨done ++ [ds], none, sessionWord_stop done ds, rfl⟩

end Word

section Keys

variable [DecidableEq κ] {s t : κ → Bool} {es : List (κ × SessionEvent δ)}

/-- The machine of all keys: an event moves its own key. -/
def Sessions.step (s : κ → Bool) (e : κ × SessionEvent δ) : Option (κ → Bool) :=
  (Session.step (s e.1) e.2).map (Function.update s e.1)

/-- The events of one key. -/
def eventsOf (k : κ) (es : List (κ × SessionEvent δ)) : List (SessionEvent δ) :=
  es.filterMap fun e => if e.1 = k then some e.2 else none

theorem eventsOf_append (k : κ) (es fs : List (κ × SessionEvent δ)) :
    eventsOf k (es ++ fs) = eventsOf k es ++ eventsOf k fs := List.filterMap_append

theorem sessions_step_eq {e : κ × SessionEvent δ} {b : Bool}
    (h : Session.step (s e.1) e.2 = some b) :
    Step Sessions.step s e (Function.update s e.1 b) := by
  simp only [Step, Sessions.step, h, Option.map_some]

/-- **The projection to a key.** -/
theorem sessions_of_key (h : Run (Step Sessions.step) s es t) (k : κ) :
    Run (Step Session.step) (s k) (eventsOf k es) (t k) := by
  induction h with
  | nil => exact Run.nil
  | @snoc es t u e _ hst ih =>
    obtain ⟨b, hb, rfl⟩ := Option.map_eq_some_iff.1 hst
    rw [eventsOf_append]
    by_cases hk : e.1 = k
    · subst hk
      rw [Function.update_self]
      have hone : eventsOf e.1 [e] = [e.2] := by simp [eventsOf]
      rw [hone]
      exact ih.snoc hb
    · have hnone : eventsOf k [e] = [] := by simp [eventsOf, hk]
      rw [hnone, List.append_nil, Function.update_of_ne (Ne.symm hk)]
      exact ih

/-- **The life of a key.** -/
theorem key_sessions (h : Run (Step Sessions.step) s es t) (k : κ) (hk : s k = false) :
    ∃ done cur, eventsOf k es = sessionWord done cur ∧ t k = cur.isSome := by
  have hrun := sessions_of_key h k
  rw [hk] at hrun
  exact session_words hrun

/-- **The rule of stuck keys.** A key that is stuck has no more events. If it gets stuck in a step
    whose only event for it is its start, nothing comes behind that start in any run. -/
theorem stuck_run {σ α : Type*} {next : σ → α → Option σ} {R : σ → α → σ → Prop}
    {ev : σ → α → List (κ × SessionEvent δ)} {lost : σ → α → List κ} {I : σ → Prop}
    {Stuck : σ → κ → Prop} (hnext : ∀ x a y, R x a y → next x a = some y)
    (hinv : ∀ x a y, I x → R x a y → I y)
    (hstuck : ∀ x a y k, I x → R x a y → Stuck x k → Stuck y k ∧ eventsOf k (ev x a) = [])
    (hlost : ∀ x a y k, I x → R x a y → k ∈ lost x a →
      Stuck y k ∧ eventsOf k (ev x a) = [.start])
    {x y : σ} {as : List α} (h0 : I x) (h : Run R x as y) {k : κ}
    (hk : k ∈ emitted next lost x as) :
    Stuck y k ∧ ∃ es, eventsOf k (emitted next ev x as) = es ++ [.start] := by
  induction h with
  | nil => cases hk
  | @snoc as y z a h hst ih =>
    have hy : I y := h.invariant hinv h0
    rw [emitted_snoc hnext h hst] at hk
    rw [emitted_snoc hnext h hst, eventsOf_append]
    rcases List.mem_append.1 hk with hold | hnow
    · obtain ⟨hs, es, hes⟩ := ih hold
      obtain ⟨hs', hnone⟩ := hstuck y a z k hy hst hs
      exact ⟨hs', es, by rw [hes, hnone, List.append_nil]⟩
    · obtain ⟨hs, hstart⟩ := hlost y a z k hy hst hnow
      exact ⟨hs, _, by rw [hstart]⟩

end Keys

end SystemCallLearn.Lib
