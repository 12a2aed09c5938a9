import SystemCallLearn.Reactor.Proofs.NonBlockProofs

/-!
# What one call of `Accepter` takes and keeps

The loop ends at the first `accept` that fails, whatever the failure is, so it empties the queue
exactly when no `accept` fails before the queue is empty. It does not look at what `InsertEvent`
returns, so it looks after every connection that it has accepted exactly when every registration
succeeds.
-/

namespace SystemCallLearn.Reactor

open SystemCallLearn.Posix SystemCallLearn.Lib

/-- The descriptors of the connections among the answers of `accept`. -/
def acceptedFds (answers : List AcceptResult) : List Int :=
  answers.filterMap fun
    | .ok fd _ => some fd
    | .err _ => none

/-- The descriptors that the kernel can give: they are not open, and no two are the same. -/
structure Server.Unused (s : Server) (answers : List AcceptResult) : Prop where
  closed : ∀ fd ∈ acceptedFds answers, 0 ≤ fd ∧ s.opened fd = false
  nodup : (acceptedFds answers).Nodup

/-- With the answers `before` one call of `Accepter` does not return, and with the failure `e`
    behind them, for the empty queue, it returns with every connection accepted. -/
def Server.Drains (s : Server) (evp : EventPtr) (before : List AcceptResult) (e : Errno) : Prop :=
  s.accepter evp before = .error .running ∧
    ∃ t, s.accepter evp (before ++ [.err e]) = .ok t ∧
      ∀ fd ∈ acceptedFds before, t.opened fd = true

/-- Between `s` and `t`, where a call of `Accepter` with these answers starts and ends, nothing is
    orphaned: each accepted descriptor is registered or closed, and each `Event` allocated is stored
    or freed. -/
structure Server.KeepsAll (s t : Server) (answers : List AcceptResult) : Prop where
  descriptors : ∀ fd ∈ acceptedFds (answers.takeWhile AcceptResult.isOk),
    (t.events fd).isSome = true ∧ (t.interest fd).isSome = true ∨ t.opened fd = false
  events : ∀ p, s.next ≤ p → p < t.next → (∃ fd, t.events fd = some p) ∨ t.heap p = none

/-- Every `epoll_ctl` for an accepted connection succeeds. -/
def AllAdded (answers : List AcceptResult) : Prop :=
  ∀ fd add, .ok fd add ∈ answers.takeWhile AcceptResult.isOk → add = none

section Accepter

variable {s t : Server} {evp : EventPtr} {ev : Event} {fd : Int} {add : Option Errno}
  {rest answers : List AcceptResult} {e : Errno}

/-! ## Draining the queue -/

theorem Server.Unused.tail (h : s.Unused (.ok fd add :: rest)) :
    (s.accepted fd add).Unused rest := by
  have hfds : acceptedFds (.ok fd add :: rest) = fd :: acceptedFds rest := rfl
  obtain ⟨hclosed, hnodup⟩ := h
  rw [hfds] at hclosed hnodup
  obtain ⟨hnot, hnodup⟩ := List.nodup_cons.1 hnodup
  refine ⟨?_, hnodup⟩
  intro fd' hfd'
  have hne : fd' ≠ fd := by
    rintro rfl
    exact hnot hfd'
  rw [accepted_opened, Function.update_of_ne hne]
  exact hclosed fd' (List.mem_cons_of_mem _ hfd')

/-- A descriptor that is open stays open while `Accepter` runs. -/
theorem accepter_opened (hs : s.Inv) (hev : s.heap evp = some ev) (hR : ev.R = some s.this)
    (hopen : s.opened fd = true) (h : s.accepter evp answers = .ok t) : t.opened fd = true := by
  refine ((accepter_safe (I := fun t => t.opened fd = true) (fun _ _ _ hI => hI) ?_ hs hopen hev hR
    answers).ok h).2
  intro u fd' add' _ hI _ _
  rw [accepted_opened, Function.update_apply, hI, ite_self]

/-- **`Accepter` empties the queue if and only if no `accept` fails before it is empty.** -/
theorem drains_iff {before : List AcceptResult} (hs : s.Inv) (hev : s.heap evp = some ev)
    (hR : ev.R = some s.this) (hunused : s.Unused before) :
    s.Drains evp before e ↔ ∀ a ∈ before, a.isOk = true := by
  induction before generalizing s with
  | nil =>
    have hdrains : s.Drains evp [] e := by
      refine ⟨rfl, { s with errno := e }, ?_, ?_⟩
      · simp [Server.accepter, deref_eq hev, Server.accept]
      · intro fd hfd
        cases hfd
    apply iff_of_true hdrains
    intro a ha
    cases ha
  | cons a rest ih =>
    cases a with
    | err e' =>
      refine ⟨?_, fun hall => by cases hall _ List.mem_cons_self⟩
      rintro ⟨hrunning, -⟩
      simp [Server.accepter, deref_eq hev, Server.accept] at hrunning
    | ok fd add =>
      obtain ⟨h0, hnew⟩ := hunused.closed fd List.mem_cons_self
      have hs' := inv_accepted hs fd add
      have hev' := accepted_heap hs hev fd add
      have hR' : ev.R = some (s.accepted fd add).this := by rw [accepted_this, hR]
      -- the rest of the call starts where `fd` has been accepted
      have hrest : s.Drains evp (.ok fd add :: rest) e ↔ (s.accepted fd add).Drains evp rest e := by
        unfold Server.Drains
        rw [List.cons_append, accepter_accepted hs hev hR h0 hnew,
          accepter_accepted hs hev hR h0 hnew]
        refine and_congr_right fun _ => exists_congr fun t => and_congr_right fun ht => ?_
        have hfd : t.opened fd = true :=
          accepter_opened hs' hev' hR' (by rw [accepted_opened, Function.update_self]) ht
        constructor
        · exact fun hall fd' hfd' => hall fd' (List.mem_cons_of_mem _ hfd')
        · intro hall fd' hfd'
          rcases List.mem_cons.1 hfd' with rfl | hfd'
          · exact hfd
          · exact hall fd' hfd'
      rw [hrest, ih hs' hev' hR' hunused.tail, List.forall_mem_cons]
      exact ⟨fun hall => ⟨rfl, hall⟩, fun hall => hall.2⟩

/-! ## Looking after what was accepted -/

/-- What has become of the connection `fd` when `Accepter` returns. -/
theorem accepter_outcome (hs : s.Inv) (hev : s.heap evp = some ev) (hR : ev.R = some s.this)
    (hnew : s.opened fd = false) (h : (s.accepted fd add).accepter evp rest = .ok t) :
    t.Inv ∧ match add with
      | none => t.events fd = some s.next
      | some _ => t.opened fd = true ∧ t.events fd = none := by
  have hs' := inv_accepted hs fd add
  have hev' := accepted_heap hs hev fd add
  have hR' : ev.R = some (s.accepted fd add).this := by rw [accepted_this, hR]
  cases add with
  | none =>
    refine (accepter_safe (I := fun t => t.events fd = some s.next) (fun _ _ _ hI => hI) ?_ hs'
      (accepted_blocking s fd).1 hev' hR' rest).ok h
    intro u fd' add' hu hI _ hfd'
    exact accepted_events hu hI hfd' add'
  | some e =>
    refine (accepter_safe (I := fun t => t.opened fd = true ∧ t.events fd = none)
      (fun _ _ _ hI => hI) ?_ hs' ⟨?_, (hs.unregistered hnew).1⟩ hev' hR' rest).ok h
    · rintro u fd' add' hu ⟨hopen, hnone⟩ _ hfd'
      have hne : fd ≠ fd' := by
        rintro rfl
        rw [hopen] at hfd'
        cases hfd'
      refine ⟨by rw [accepted_opened, Function.update_of_ne hne, hopen], ?_⟩
      cases add' with
      | some e' => exact hnone
      | none => exact (Function.update_of_ne hne _ _).trans hnone
    · rw [accepted_opened, Function.update_self]

theorem allAdded_cons : AllAdded (.ok fd add :: rest) ↔ add = none ∧ AllAdded rest := by
  simp only [AllAdded, List.takeWhile_cons, AcceptResult.isOk, if_true, List.mem_cons,
    AcceptResult.ok.injEq]
  constructor
  · exact fun h => ⟨h fd add (.inl ⟨rfl, rfl⟩), fun fd' add' hmem => h fd' add' (.inr hmem)⟩
  · rintro ⟨hadd, hrest⟩ fd' add' (⟨-, rfl⟩ | hmem)
    · exact hadd
    · exact hrest fd' add' hmem

theorem keepsAll_cons (hs : s.Inv) (hev : s.heap evp = some ev) (hR : ev.R = some s.this)
    (hnew : s.opened fd = false) (h : (s.accepted fd add).accepter evp rest = .ok t) :
    s.KeepsAll t (.ok fd add :: rest) ↔ add = none ∧ (s.accepted fd add).KeepsAll t rest := by
  obtain ⟨ht, hout⟩ := accepter_outcome hs hev hR hnew h
  have hfds : acceptedFds ((.ok fd add :: rest).takeWhile AcceptResult.isOk) =
      fd :: acceptedFds (rest.takeWhile AcceptResult.isOk) := rfl
  constructor
  · rintro ⟨hdesc, hevents⟩
    rw [hfds] at hdesc
    refine ⟨?_, ⟨fun fd' hfd' => hdesc fd' (List.mem_cons_of_mem _ hfd'), ?_⟩⟩
    · cases add with
      | none => rfl
      | some e =>
        -- the descriptor is open and not registered
        obtain ⟨hopen, hnone⟩ := hout
        have hfd := hdesc fd List.mem_cons_self
        simp [hopen, hnone] at hfd
    · intro p hle hlt
      rw [accepted_next] at hle
      exact hevents p (Nat.le_of_succ_le hle) hlt
  · rintro ⟨rfl, hdesc, hevents⟩
    have hstored : t.events fd = some s.next := hout
    constructor
    · intro fd' hfd'
      rw [hfds] at hfd'
      rcases List.mem_cons.1 hfd' with rfl | hfd'
      · refine .inl ⟨by rw [hstored]; rfl, ?_⟩
        rw [← ht.keys, hstored]
        rfl
      · exact hdesc fd' hfd'
    · intro p hle hlt
      rcases Nat.eq_or_lt_of_le hle with rfl | hlt'
      · exact .inl ⟨fd, hstored⟩
      · exact hevents p (by rw [accepted_next]; exact hlt') hlt

/-- **`Accepter` orphans nothing if and only if every registration succeeds.** -/
theorem keepsAll_iff (hs : s.Inv) (hev : s.heap evp = some ev) (hR : ev.R = some s.this)
    (h : s.accepter evp answers = .ok t) : s.KeepsAll t answers ↔ AllAdded answers := by
  induction answers generalizing s with
  | nil => cases h
  | cons a rest ih =>
    cases a with
    | err e =>
      simp only [Server.accepter, deref_eq hev, Exec.ok_bind, Server.accept] at h
      obtain rfl := Except.ok.inj h
      refine iff_of_true ⟨?_, ?_⟩ ?_
      · intro fd hfd
        cases hfd
      · intro p hle hlt
        exact absurd hlt (Nat.not_lt.2 hle)
      · intro fd add hmem
        cases hmem
    | ok fd add =>
      by_cases hnew : 0 ≤ fd ∧ s.opened fd = false
      · rw [accepter_accepted hs hev hR hnew.1 hnew.2] at h
        have hs' := inv_accepted hs fd add
        have hev' := accepted_heap hs hev fd add
        have hR' : ev.R = some (s.accepted fd add).this := by rw [accepted_this, hR]
        rw [keepsAll_cons hs hev hR hnew.2 h, allAdded_cons, ih hs' hev' hR' h]
      · simp only [Server.accepter, deref_eq hev, Exec.ok_bind, Server.accept, if_neg hnew] at h
        cases h

end Accepter

/-! ## In the server -/

section Run

variable {st st' : Loop} {evp : EventPtr} {ev : Event}

theorem registered_R (hst : st.Inv) (hr : st.srv.Registered evp ev) : ev.R = some st.srv.this := by
  obtain ⟨ev', hr', -, hR⟩ := hst.srv.registered hr.stored
  obtain rfl : ev' = ev := Option.some.inj (hr'.live.symm.trans hr.live)
  exact hR

/-- **`Accepter` drains the queue exactly when no `accept` fails before the queue is empty.** In
    every state of every run of the server and for all answers of `accept`, one call takes every
    connection and goes on until the queue is empty if and only if none of the answers before that
    is a failure, such as `EINTR` or `ECONNABORTED`. -/
theorem accepter_drains_iff (st st' : Loop) (is : List Input) (h0 : Started st)
    (h : Run Loop.Steps st is st') (evp : EventPtr) (ev : Event)
    (hr : st'.srv.Registered evp ev) (before : List AcceptResult) (e : Errno)
    (hunused : st'.srv.Unused before) :
    st'.srv.Drains evp before e ↔ ∀ a ∈ before, a.isOk = true := by
  have hst := loop_run h0 h
  exact drains_iff hst.srv hr.live (registered_R hst hr) hunused

/-- The listening socket 3 is reported. -/
def listenInputs : List Input := [.wait (.ok [(3, epollIn)])]

theorem exists_listen : ∃ st st', Started st ∧ Run Loop.Steps st listenInputs st' ∧
    (∃ ev, st'.srv.Registered 0 ev) ∧ st'.srv.opened 5 = false ∧ st'.srv.opened 6 = false := by
  obtain ⟨st, st', hmain, hrun, hp⟩ := exists_run .good listenInputs
    (p := fun st => decide (st.srv.events 3 = some 0 ∧ st.srv.opened 5 = false ∧
      st.srv.opened 6 = false)) (by decide +kernel)
  obtain ⟨hstored, h5, h6⟩ := of_decide_eq_true hp
  have h0 : Started st := ⟨_, _, _, _, _, _, hmain⟩
  obtain ⟨ev, hr, -, -⟩ := (loop_run h0 hrun).srv.registered hstored
  exact ⟨st, st', h0, hrun, ⟨ev, hr⟩, h5, h6⟩

/-- Two connections are waiting and no `accept` fails before the queue is empty. -/
theorem accepter_drains_iff_two :
    ∃ st st' ev, Started st ∧ Run Loop.Steps st listenInputs st' ∧ st'.srv.Registered 0 ev ∧
      st'.srv.Drains 0 [.ok 5 none, .ok 6 none] .eagain := by
  obtain ⟨st, st', h0, hrun, ⟨ev, hr⟩, h5, h6⟩ := exists_listen
  have hunused : st'.srv.Unused [.ok 5 none, .ok 6 none] := by
    refine ⟨?_, by decide⟩
    intro fd hfd
    simp only [acceptedFds, List.filterMap_cons, List.filterMap_nil, List.mem_cons,
      List.not_mem_nil, or_false] at hfd
    rcases hfd with rfl | rfl
    · exact ⟨by decide, h5⟩
    · exact ⟨by decide, h6⟩
  exact ⟨st, st', ev, h0, hrun, hr,
    (accepter_drains_iff st st' _ h0 hrun 0 ev hr _ _ hunused).2 (by decide)⟩

/-- **`Accepter` stops at an interrupted `accept`.** It returns at `EINTR`, and the connection that
    is behind it in the queue is not accepted. -/
theorem accepter_stops_at_eintr :
    ∃ st st' ev t, Started st ∧ Run Loop.Steps st listenInputs st' ∧ st'.srv.Registered 0 ev ∧
      st'.srv.Unused [.err .eintr, .ok 5 none] ∧
      st'.srv.accepter 0 [.err .eintr, .ok 5 none, .err .eagain] = .ok t ∧ t.opened 5 = false ∧
      ¬ st'.srv.Drains 0 [.err .eintr, .ok 5 none] .eagain := by
  obtain ⟨st, st', h0, hrun, ⟨ev, hr⟩, h5, -⟩ := exists_listen
  have hunused : st'.srv.Unused [.err .eintr, .ok 5 none] := by
    refine ⟨?_, by decide⟩
    intro fd hfd
    obtain rfl : fd = 5 := by simpa [acceptedFds] using hfd
    exact ⟨by decide, h5⟩
  have hst := loop_run h0 hrun
  refine ⟨st, st', ev, { st'.srv with errno := .eintr }, h0, hrun, hr, hunused, ?_, h5, ?_⟩
  · simp [Server.accepter, deref_eq hr.live, Server.accept]
  · rw [drains_iff hst.srv hr.live (registered_R hst hr) hunused]
    decide

/-- **`Accepter` orphans nothing exactly when every registration succeeds.** In every state of every
    run of the server, for all answers of `accept` and all outcomes of the `epoll_ctl` for each
    connection: when the call returns, each descriptor that it has accepted is registered or closed
    and each `Event` that it has allocated is stored or freed, if and only if no `epoll_ctl` has
    failed. -/
theorem accepter_orphans_none_iff (st st' : Loop) (is : List Input) (h0 : Started st)
    (h : Run Loop.Steps st is st') (evp : EventPtr) (ev : Event)
    (hr : st'.srv.Registered evp ev) (answers : List AcceptResult) (t : Server)
    (hret : st'.srv.accepter evp answers = .ok t) :
    st'.srv.KeepsAll t answers ↔ AllAdded answers := by
  have hst := loop_run h0 h
  exact keepsAll_iff hst.srv hr.live (registered_R hst hr) hret

/-- A call of `Accepter` computed after `listenInputs`. -/
theorem exists_accepter (answers : List AcceptResult) {q : Server → Bool}
    (h : ((Server.fresh.main 2 .good).toOption.any fun st =>
      (exec (fun st i => (st.step i).toOption) st listenInputs).any fun st =>
        decide (st.srv.events 3 = some 0) && (st.srv.accepter 0 answers).toOption.any q) = true) :
    ∃ st st' ev t, Started st ∧ Run Loop.Steps st listenInputs st' ∧ st'.srv.Registered 0 ev ∧
      st'.srv.accepter 0 answers = .ok t ∧ q t = true := by
  obtain ⟨st, st', hmain, hrun, hp⟩ := exists_run .good listenInputs h
  obtain ⟨hstored, hq⟩ := Bool.and_eq_true_iff.1 hp
  have h0 : Started st := ⟨_, _, _, _, _, _, hmain⟩
  obtain ⟨ev, hr, -, -⟩ := (loop_run h0 hrun).srv.registered (of_decide_eq_true hstored)
  cases hret : st'.srv.accepter 0 answers with
  | error e => simp [hret, Except.toOption] at hq
  | ok t =>
    simp only [hret, Except.toOption, Option.any_some] at hq
    exact ⟨st, st', ev, t, h0, hrun, hr, hret, hq⟩

/-- Two connections are accepted and registered. -/
theorem accepter_orphans_none_iff_two :
    ∃ st st' ev t, Started st ∧ Run Loop.Steps st listenInputs st' ∧ st'.srv.Registered 0 ev ∧
      st'.srv.accepter 0 [.ok 5 none, .ok 6 none, .err .eagain] = .ok t ∧
      (t.events 5 = some 1 ∧ t.events 6 = some 2) ∧
      st'.srv.KeepsAll t [.ok 5 none, .ok 6 none, .err .eagain] := by
  obtain ⟨st, st', ev, t, h0, hrun, hr, hret, hq⟩ :=
    exists_accepter [.ok 5 none, .ok 6 none, .err .eagain]
      (q := fun t => decide (t.events 5 = some 1 ∧ t.events 6 = some 2)) (by decide +kernel)
  refine ⟨st, st', ev, t, h0, hrun, hr, hret, of_decide_eq_true hq, ?_⟩
  apply (accepter_orphans_none_iff st st' _ h0 hrun 0 ev hr _ t hret).2
  have hlast : AllAdded [.err .eagain] := by
    intro fd add hmem
    cases hmem
  exact allAdded_cons.2 ⟨rfl, allAdded_cons.2 ⟨rfl, hlast⟩⟩

/-- **A connection whose registration fails is orphaned.** The descriptor 5 stays open and is not
    registered, and its `Event` is neither stored nor freed. -/
theorem accepter_orphans :
    ∃ st st' ev t, Started st ∧ Run Loop.Steps st listenInputs st' ∧ st'.srv.Registered 0 ev ∧
      st'.srv.accepter 0 [.ok 5 (some (.other 28)), .err .eagain] = .ok t ∧
      (t.opened 5 = true ∧ t.events 5 = none ∧ t.interest 5 = none ∧ t.heap 1 ≠ none) ∧
      ¬ st'.srv.KeepsAll t [.ok 5 (some (.other 28)), .err .eagain] := by
  obtain ⟨st, st', ev, t, h0, hrun, hr, hret, hq⟩ :=
    exists_accepter [.ok 5 (some (.other 28)), .err .eagain]
      (q := fun t => decide (t.opened 5 = true ∧ t.events 5 = none ∧ t.interest 5 = none ∧
        t.heap 1 ≠ none)) (by decide +kernel)
  obtain ⟨hopen, hnone, hint, hheap⟩ := of_decide_eq_true hq
  refine ⟨st, st', ev, t, h0, hrun, hr, hret, ⟨hopen, hnone, hint, hheap⟩, ?_⟩
  intro hkeep
  have h5 := hkeep.descriptors 5 (List.mem_singleton_self 5)
  simp [hopen, hnone] at h5

end Run

end SystemCallLearn.Reactor
