import SystemCallLearn.Multiplex.Proofs.SelectProofs
import SystemCallLearn.Multiplex.Proofs.ReadinessProofs
import SystemCallLearn.Multiplex.Proofs.EpollServerProofs

/-!
# The sessions of the servers

What the calls `accept`, `recv` and `close` of the four servers do to a descriptor, over a whole
run: the number goes through sessions that start with `accept`, carry the chunks received, and stop
with `close`. All four refine the machine of the sessions, with the descriptors that are open and
were not when the loop started as the open sessions. They differ in who else holds such a
descriptor: nobody, or the connections that the server has lost.
-/

namespace SystemCallLearn.Multiplex

open SystemCallLearn.Posix SystemCallLearn.Lib

/-- What `accept` says. -/
def acceptEvents : AcceptResult → List (Int × SessionEvent Bytes)
  | .ok fd => [(fd, .start)]
  | .err _ => []

/-- A chunk, or the end of the connection, which is closed. -/
def readEvents (fd : Int) : RecvResult → List (Int × SessionEvent Bytes)
  | .ok (c :: bytes) => [(fd, .data (c :: bytes))]
  | _ => [(fd, .stop)]

theorem readEvents_end {fd : Int} {r : RecvResult} (h : ∀ c bytes, r ≠ .ok (c :: bytes)) :
    readEvents fd r = [(fd, .stop)] := by
  cases r with
  | err e => rfl
  | ok bytes =>
    cases bytes with
    | nil => rfl
    | cons c bytes => exact absurd rfl (h c bytes)

theorem eventsOf_ne {k fd : Int} {ev : SessionEvent Bytes} (h : fd ≠ k) :
    eventsOf k [(fd, ev)] = [] := by
  simp [eventsOf, h]

/-- The open sessions: the descriptors that are open and were not when the loop started. -/
def sessionsOf (b opened : Fds) : Int → Bool := fun fd => opened fd && !b fd

/-- The descriptors `accepted` are those that the server has opened since the loop started. -/
structure Since (b : Fds) (accepted : List Int) (opened : Fds) : Prop where
  kept : ∀ fd, b fd = true → opened fd = true
  apart : ∀ fd ∈ accepted, b fd = false
  new : ∀ fd, opened fd = true → b fd = true ∨ fd ∈ accepted

section Since

variable {b opened : Fds} {accepted : List Int} {fd : Int} {k : Int}

theorem sessionsOf_true : sessionsOf b opened k = true ↔ opened k = true ∧ b k = false := by
  simp [sessionsOf]

theorem sessionsOf_update (hfd : b fd = false) (v : Bool) :
    sessionsOf b (Function.update opened fd v) = Function.update (sessionsOf b opened) fd v := by
  funext k
  by_cases hk : k = fd
  · simp [sessionsOf, hk, hfd]
  · simp [sessionsOf, Function.update_of_ne hk]

theorem sessionsOf_self (b : Fds) : sessionsOf b b = fun _ => false := by
  funext k
  cases hb : b k <;> simp [sessionsOf, hb]

theorem step_start (hb : b fd = false) (hnew : opened fd = false) :
    Step (Sessions.step (δ := Bytes)) (sessionsOf b opened) (fd, .start)
      (sessionsOf b (Function.update opened fd true)) := by
  rw [sessionsOf_update hb]
  apply sessions_step_eq
  simp [sessionsOf, hnew, Session.step]

theorem step_data (hb : b fd = false) (hopen : opened fd = true) (d : Bytes) :
    Step Sessions.step (sessionsOf b opened) (fd, .data d) (sessionsOf b opened) := by
  have hlive : sessionsOf b opened fd = true := sessionsOf_true.2 ⟨hopen, hb⟩
  have hstep := sessions_step_eq (s := sessionsOf b opened) (e := (fd, .data d)) (b := true)
    (by rw [hlive]; rfl)
  rwa [← hlive, Function.update_eq_self] at hstep

theorem step_stop (hb : b fd = false) (hopen : opened fd = true) :
    Step (Sessions.step (δ := Bytes)) (sessionsOf b opened) (fd, .stop)
      (sessionsOf b (opened.close fd)) := by
  rw [Fds.close, sessionsOf_update hb]
  apply sessions_step_eq
  simp [sessionsOf, hopen, hb, Session.step]

/-- A connection that is accepted and closed at once. -/
theorem run_refuse (hb : b fd = false) (hnew : opened fd = false) :
    Run (Step (Sessions.step (δ := Bytes))) (sessionsOf b opened) ([(fd, .start)] ++ [(fd, .stop)])
      (sessionsOf b opened) := by
  have hstop : Step (Sessions.step (δ := Bytes)) (sessionsOf b (Function.update opened fd true))
      (fd, .stop) (sessionsOf b (Fds.close (Function.update opened fd true) fd)) :=
    step_stop hb (Function.update_self _ _ _)
  rw [close_update opened hnew] at hstop
  exact (Run.single (step_start hb hnew)).snoc hstop

/-- **The rule for the servers.** When each step's events are a run of the sessions, so are those of
    every run, and its open sessions are the descriptors that have been opened. -/
theorem sessions_of_steps {σ α : Type*} {step : σ → α → Option σ}
    {ev : σ → α → List (Int × SessionEvent Bytes)} (fds : σ → Fds) {I : σ → Prop}
    (hstep : ∀ s a t, I s → Step step s a t → I t ∧
      Run (Step Sessions.step) (sessionsOf b (fds s)) (ev s a) (sessionsOf b (fds t)))
    {s t : σ} {as : List α} (h0 : I s) (hb : fds s = b) (h : Run (Step step) s as t) :
    I t ∧ Run (Step Sessions.step) (fun _ => false) (emitted step ev s as)
      (sessionsOf b (fds t)) := by
  have hproj : ∃ x, Run (Step Sessions.step) (sessionsOf b (fds s)) (emitted step ev s as) x ∧
      I t ∧ x = sessionsOf b (fds t) := by
    refine h.project (S := fun t x => I t ∧ x = sessionsOf b (fds t)) (fun _ _ _ hst => hst) ?_
      ⟨h0, rfl⟩
    rintro u a v x ⟨hu, rfl⟩ hst
    obtain ⟨hv, hrun⟩ := hstep u a v hu hst
    exact ⟨_, hrun, hv, rfl⟩
  obtain ⟨x, hrun, ht, rfl⟩ := hproj
  rw [hb, sessionsOf_self] at hrun
  exact ⟨ht, hrun⟩

theorem since_start (b : Fds) : Since b [] b :=
  ⟨fun _ h => h, fun _ h => (List.not_mem_nil h).elim, fun _ h => .inl h⟩

theorem Since.unused (h : Since b accepted opened) (hnew : opened fd = false) : b fd = false := by
  by_contra hb
  rw [h.kept fd (by simpa using hb)] at hnew
  cases hnew

theorem Since.accept (h : Since b accepted opened) (hnew : opened fd = false) :
    Since b (accepted ++ [fd]) (Function.update opened fd true) := by
  refine ⟨?_, ?_, ?_⟩
  · intro k hk
    rw [Function.update_apply, h.kept k hk, ite_self]
  · intro k hk
    rcases List.mem_append.1 hk with hk | hk
    · exact h.apart k hk
    · rw [List.mem_singleton.1 hk]
      exact h.unused hnew
  · intro k hk
    rw [Function.update_apply] at hk
    split_ifs at hk with heq
    · exact .inr (by simp [heq])
    · exact (h.new k hk).imp id fun hmem => List.mem_append_left _ hmem

/-- A connection that is accepted and closed again. -/
theorem Since.refuse (h : Since b accepted opened) (hnew : opened fd = false) :
    Since b (accepted ++ [fd]) opened := by
  refine ⟨h.kept, ?_, fun k hk => (h.new k hk).imp id fun hmem => List.mem_append_left _ hmem⟩
  intro k hk
  rcases List.mem_append.1 hk with hk | hk
  · exact h.apart k hk
  · rw [List.mem_singleton.1 hk]
    exact h.unused hnew

theorem Since.close (h : Since b accepted opened) (hfd : b fd = false) :
    Since b accepted (opened.close fd) := by
  refine ⟨?_, h.apart, ?_⟩
  · intro k hk
    have hne : k ≠ fd := by
      rintro rfl
      rw [hk] at hfd
      cases hfd
    rw [Fds.close, Function.update_of_ne hne]
    exact h.kept k hk
  · intro k hk
    rw [Fds.close, Function.update_apply] at hk
    split_ifs at hk
    exact h.new k hk

end Since

/-! ## `select_server.cc` -/

namespace SelectServer

variable {st st' : SelectServer} {b : Fds} {fd : Int} {i : Nat}

/-- What a step does to the sessions. A connection that finds no free entry is closed at once. -/
def eventsIn (st : SelectServer) (input : Input) : List (Int × SessionEvent Bytes) :=
  match input, st.scan with
  | .entry a r, some i =>
    if i < num then
      match st.todo i with
      | .next => []
      | .accept =>
        acceptEvents a ++
          match a, freePos st.fdArray with
          | .ok fd, none => [(fd, .stop)]
          | _, _ => []
      | .recv fd => readEvents fd r
    else []
  | _, _ => []

/-- What a run does to the sessions. -/
def sessions (st : SelectServer) (is : List Input) : List (Int × SessionEvent Bytes) :=
  emitted step eventsIn st is

/-- What is read is a connection, open since it was accepted. -/
theorem Inv.recv_accepted (h : st.Inv) (hs : Since b st.accepted st.opened)
    (htodo : st.todo i = .recv fd) : b fd = false ∧ st.opened fd = true := by
  obtain ⟨hi, hfd, hlisten, -⟩ := todo_recv htodo
  obtain ⟨hopen, heq | hacc⟩ := h.entry hi hfd
  · exact absurd heq hlisten
  · exact ⟨hs.apart fd hacc, hopen⟩

theorem todo_scan (st : SelectServer) (scan : Option Nat) (i : Nat) :
    todo { st with scan := scan } i = st.todo i := rfl

/-- **The step lemma.** -/
theorem sessions_step {input : Input} (h : st.Inv) (hs : Since b st.accepted st.opened)
    (hst : Step step st input st') :
    Run (Step Sessions.step) (sessionsOf b st.opened) (st.eventsIn input)
      (sessionsOf b st'.opened) ∧ Since b st'.accepted st'.opened := by
  cases step_moves hst with
  | @select answer hscan => cases answer <;> exact ⟨Run.nil, hs⟩
  | @next i a r hscan hi htodo =>
    have hev : st.eventsIn (.entry a r) = [] := by
      simp only [eventsIn, hscan, if_pos hi, htodo]
    rw [hev]
    exact ⟨Run.nil, hs⟩
  | @refused i e r hscan hi htodo =>
    have hev : st.eventsIn (.entry (.err e) r) = [] := by
      simp only [eventsIn, hscan, if_pos hi, htodo, acceptEvents, List.append_nil]
    rw [hev]
    exact ⟨Run.nil, hs⟩
  | @placed i fd r pos hscan hi htodo hfd hnew hpos =>
    have hev : st.eventsIn (.entry (.ok fd) r) = [(fd, .start)] := by
      simp only [eventsIn, hscan, if_pos hi, htodo, hpos, acceptEvents, List.append_nil]
    rw [hev]
    exact ⟨Run.single (step_start (hs.unused hnew) hnew), hs.accept hnew⟩
  | @full i fd r hscan hi htodo hfd hnew hpos =>
    have hev : st.eventsIn (.entry (.ok fd) r) = [(fd, .start)] ++ [(fd, .stop)] := by
      simp only [eventsIn, hscan, if_pos hi, htodo, hpos, acceptEvents]
    rw [hev]
    exact ⟨run_refuse (hs.unused hnew) hnew, hs.refuse hnew⟩
  | @read i fd a c bytes hscan hi htodo =>
    have hev : st.eventsIn (.entry a (.ok (c :: bytes))) = [(fd, .data (c :: bytes))] := by
      simp only [eventsIn, hscan, if_pos hi, htodo, readEvents]
    rw [hev]
    obtain ⟨hb, hopen⟩ := h.recv_accepted hs htodo
    exact ⟨Run.single (step_data hb hopen _), hs⟩
  | @closed i fd a r hscan hi htodo =>
    obtain ⟨hb, hopen⟩ := h.recv_accepted hs htodo
    have hend : ∀ c bytes, r ≠ .ok (c :: bytes) := by
      rintro c bytes rfl
      simp only [Step, step, hscan, if_pos hi, todo_scan, htodo, recvEntry, Option.some.injEq] at hst
      have hsame := congrArg (fun t : SelectServer => t.opened fd) hst
      simp [Fds.close, hopen] at hsame
    have hev : st.eventsIn (.entry a r) = [(fd, .stop)] := by
      simp only [eventsIn, hscan, if_pos hi, htodo, readEvents_end hend]
    rw [hev]
    exact ⟨Run.single (step_stop hb hopen), hs.close hb⟩
  | @done i a r hscan hi =>
    have hev : st.eventsIn (.entry a r) = [] := by
      simp only [eventsIn, hscan, if_neg (Nat.not_lt.2 hi)]
    rw [hev]
    exact ⟨Run.nil, hs⟩

theorem started_accepted (h : Started st) : st.accepted = [] := by
  obtain ⟨opened, argc, a, hmain⟩ := h
  unfold main at hmain
  cases hsetup : setup opened argc a with
  | error e =>
    rw [hsetup] at hmain
    cases hmain
  | ok x =>
    rw [hsetup] at hmain
    obtain rfl := Except.ok.inj hmain
    rfl

/-- **The run lemma.** -/
theorem sessions_run {is : List Input} (h0 : Started st) (h : Run (Step step) st is st') :
    (st'.Inv ∧ Since st.opened st'.accepted st'.opened) ∧
      Run (Step Sessions.step) (fun _ => false) (st.sessions is)
        (sessionsOf st.opened st'.opened) := by
  have hstart : st.Inv ∧ Since st.opened st.accepted st.opened := by
    rw [started_accepted h0]
    exact ⟨(inv_started h0).1, since_start _⟩
  refine sessions_of_steps SelectServer.opened
    (I := fun t => t.Inv ∧ Since st.opened t.accepted t.opened) ?_ hstart rfl h
  rintro t input u ⟨hinv, hs⟩ hst
  obtain ⟨hrun, hs'⟩ := sessions_step hinv hs hst
  exact ⟨⟨hinv.step hst, hs'⟩, hrun⟩

/-- The table holds the connections that the server has open. -/
theorem Inv.mem_table (h : st.Inv) (hs : Since b st.accepted st.opened)
    (hlisten : b st.listenSock = true) (fd : Int) :
    st.opened fd = true ∧ b fd = false ↔ fd ∈ st.fdArray ∧ fd ≠ -1 ∧ fd ≠ st.listenSock := by
  constructor
  · rintro ⟨hopen, hb⟩
    have hne : fd ≠ st.listenSock := by
      rintro rfl
      rw [hlisten] at hb
      cases hb
    have hacc : fd ∈ st.accepted := by
      rcases hs.new fd hopen with hold | hacc
      · rw [hold] at hb
        cases hb
      · exact hacc
    obtain ⟨i, x, hi, hx⟩ := Slots.mem_held.1 ((h.table.mem fd).2 (.inr ⟨hacc, hopen⟩))
    unfold slotFd at hx
    split_ifs at hx with hfree
    obtain rfl := Option.some.inj hx
    exact ⟨List.mem_of_getElem? hi, hfree, hne⟩
  · rintro ⟨hmem, hused, hne⟩
    obtain ⟨i, hi⟩ := List.mem_iff_getElem?.1 hmem
    obtain ⟨hopen, heq | hacc⟩ := h.entry hi hused
    · exact absurd heq hne
    · exact ⟨hopen, hs.apart fd hacc⟩

/-- **The sessions of `select_server.cc`.** In every run, whatever the calls answer, the calls on a
    descriptor that the server was not started with are sessions, one after the other: `accept`,
    then `recv` with chunks, then one `close`. The last session is open if and only if the
    descriptor is, and if and only if it is in the table: no connection is read or closed twice, and
    none is left open. -/
theorem selectServer_sessions (is : List Input) (h0 : Started st) (h : Run (Step step) st is st')
    (fd : Int) (hfd : st.opened fd = false) :
    ∃ done cur, eventsOf fd (st.sessions is) = sessionWord done cur ∧
      (cur.isSome = true ↔ st'.opened fd = true) ∧
      (cur.isSome = true ↔ fd ∈ st'.fdArray ∧ fd ≠ -1) := by
  obtain ⟨⟨hinv, hs⟩, hrun⟩ := sessions_run h0 h
  obtain ⟨done, cur, hword, hcur⟩ := key_sessions hrun fd rfl
  have hlisten : st'.listenSock = st.listenSock :=
    h.invariant (I := fun t => t.listenSock = st.listenSock)
      (fun _ _ _ hI hst => (step_listenSock hst).trans hI) rfl
  have hopen := (inv_started h0).1.listenOpen
  have htable := hinv.mem_table hs (by rw [hlisten, hopen]) fd
  have hne : fd ≠ st'.listenSock := by
    rintro rfl
    rw [hlisten, hopen] at hfd
    cases hfd
  rw [hfd] at htable
  refine ⟨done, cur, hword, ?_, ?_⟩
  · rw [← hcur, sessionsOf_true, hfd]
    simp
  · rw [← hcur, sessionsOf_true, hfd, htable]
    simp [hne]

/-- Connection 4 sends twice and ends, and the number 4 comes again. -/
def reuseRounds : List Input :=
  round [3] (.ok 4) (.ok []) ++ round [4] (.ok 6) (.ok [104, 105]) ++
    round [4] (.ok 6) (.ok [33]) ++ round [4] (.ok 6) (.ok []) ++ round [3] (.ok 4) (.ok [])

theorem selectServer_sessions_reuse :
    ∃ st st' done cur, Started st ∧ Run (Step step) st reuseRounds st' ∧
      eventsOf 4 (st.sessions reuseRounds) =
        [.start, .data [104, 105], .data [33], .stop, .start] ∧
      eventsOf 4 (st.sessions reuseRounds) = sessionWord done cur ∧
      (cur.isSome = true ↔ st'.opened 4 = true) ∧
      (cur.isSome = true ↔ (4 : Int) ∈ st'.fdArray ∧ (4 : Int) ≠ -1) := by
  have hmain : (main streams 2 goodSetup).toOption.isSome = true := by decide +kernel
  cases hst : main streams 2 goodSetup with
  | error e => simp [hst, Except.toOption] at hmain
  | ok st =>
    have hrun : ((main streams 2 goodSetup).toOption.any fun st => st.opened 4 = false ∧
        eventsOf 4 (st.sessions reuseRounds) =
          [.start, .data [104, 105], .data [33], .stop, .start] ∧
        (exec step st reuseRounds).isSome) = true := by
      decide +kernel
    simp only [hst, Except.toOption, Option.any_some] at hrun
    obtain ⟨hfd, hevents, hexec⟩ := of_decide_eq_true hrun
    obtain ⟨st', hst'⟩ := Option.isSome_iff_exists.1 hexec
    have h0 : Started st := ⟨streams, 2, goodSetup, hst⟩
    obtain ⟨done, cur, hword, hopen, htable⟩ :=
      selectServer_sessions reuseRounds h0 (exec_run hst') 4 hfd
    exact ⟨st, st', done, cur, h0, exec_run hst', hevents, hword, hopen, htable⟩

end SelectServer

/-! ## `select.cc` -/

namespace Select

variable {st st' : Select} {b : Fds} {fd : Int} {i : Nat} {input : SelectServer.Input}

/-- What a step does to the sessions. A failed `recv` does nothing. -/
def eventsIn (st : Select) (input : SelectServer.Input) : List (Int × SessionEvent Bytes) :=
  match input, st.scan with
  | .entry a r, some i =>
    if i < num then
      match st.todo i with
      | .next => []
      | .accept =>
        acceptEvents a ++
          match a, SelectServer.freePos st.fdArray with
          | .ok fd, none => [(fd, .stop)]
          | _, _ => []
      | .recv fd =>
        match r with
        | .err _ => []
        | .ok bytes => readEvents fd (.ok bytes)
    else []
  | _, _ => []

/-- What a run does to the sessions. -/
def sessions (st : Select) (is : List SelectServer.Input) : List (Int × SessionEvent Bytes) :=
  emitted step eventsIn st is

theorem todo_scan (st : Select) (scan : Option Nat) (i : Nat) :
    SelectServer.todo { st.toSelectServer with scan := scan } i = st.todo i := rfl

/-- Every step keeps the table of `select_server.cc`. -/
theorem table_step (h : st.toSelectServer.Inv) (hst : Step step st input st') :
    st'.toSelectServer.Inv := by
  cases step_moves hst with
  | @select answer hscan => cases answer <;> exact h.frame rfl rfl rfl rfl
  | kept | done => exact h.frame rfl rfl rfl rfl
  | placed hscan hi htodo hfd hnew hpos => exact h.placed hfd hnew hpos
  | full hscan hi htodo hfd hnew hpos => exact h.dropped hnew
  | closed hscan hi htodo => exact h.closed htodo

/-- A step that keeps the connections carries a chunk, or nothing. -/
theorem sessions_kept (h : st.toSelectServer.Inv) (hs : Since b st.accepted st.opened)
    (hscan : st.scan = some i) (hi : i < num) {a : AcceptResult} {r : RecvResult}
    (hnone : st.todo i = .accept → ∃ e, a = .err e)
    (hopened : ∀ fd, st.todo i = .recv fd → r ≠ .ok []) :
    Run (Step Sessions.step) (sessionsOf b st.opened) (st.eventsIn (.entry a r))
      (sessionsOf b st.opened) := by
  simp only [eventsIn, hscan, if_pos hi]
  cases htodo : st.todo i with
  | next => exact Run.nil
  | accept =>
    obtain ⟨e, rfl⟩ := hnone htodo
    exact Run.nil
  | recv fd =>
    cases r with
    | err e => exact Run.nil
    | ok bytes =>
      cases bytes with
      | nil => exact absurd rfl (hopened fd htodo)
      | cons c bytes =>
        obtain ⟨hb, hopen⟩ := h.recv_accepted hs htodo
        exact Run.single (step_data hb hopen _)

/-- **The step lemma.** -/
theorem sessions_step (h : st.toSelectServer.Inv) (hs : Since b st.accepted st.opened)
    (hst : Step step st input st') :
    Run (Step Sessions.step) (sessionsOf b st.opened) (st.eventsIn input)
      (sessionsOf b st'.opened) ∧ Since b st'.accepted st'.opened := by
  cases step_moves hst with
  | @select answer hscan => cases answer <;> exact ⟨Run.nil, hs⟩
  | @kept i a r hscan hi hnone =>
    refine ⟨sessions_kept h hs hscan hi hnone ?_, hs⟩
    rintro fd htodo rfl
    obtain ⟨-, hopen⟩ := h.recv_accepted hs htodo
    simp only [Step, step, hscan, if_pos hi, todo_scan, htodo, recvEntry, Option.some.injEq] at hst
    have hsame := congrArg (fun t : Select => t.opened fd) hst
    simp [Fds.close, hopen] at hsame
  | @placed i fd r pos hscan hi htodo hfd hnew hpos =>
    have hev : st.eventsIn (.entry (.ok fd) r) = [(fd, .start)] := by
      simp only [eventsIn, hscan, if_pos hi, htodo, hpos, acceptEvents, List.append_nil]
    rw [hev]
    exact ⟨Run.single (step_start (hs.unused hnew) hnew), hs.accept hnew⟩
  | @full i fd r hscan hi htodo hfd hnew hpos =>
    have hev : st.eventsIn (.entry (.ok fd) r) = [(fd, .start)] ++ [(fd, .stop)] := by
      simp only [eventsIn, hscan, if_pos hi, htodo, hpos, acceptEvents]
    rw [hev]
    exact ⟨run_refuse (hs.unused hnew) hnew, hs.refuse hnew⟩
  | @closed i fd a r hscan hi htodo =>
    obtain ⟨hb, hopen⟩ := h.recv_accepted hs htodo
    have hend : r = .ok [] := by
      simp only [Step, step, hscan, if_pos hi, todo_scan, htodo, Option.some.injEq] at hst
      have hsame := congrArg (fun t : Select => t.opened fd) hst
      cases r with
      | err e => simp [recvEntry, Fds.close, hopen] at hsame
      | ok bytes =>
        cases bytes with
        | nil => rfl
        | cons c bytes => simp [recvEntry, Fds.close, hopen] at hsame
    subst hend
    have hev : st.eventsIn (.entry a (.ok [])) = [(fd, .stop)] := by
      simp only [eventsIn, hscan, if_pos hi, htodo, readEvents]
    rw [hev]
    exact ⟨Run.single (step_stop hb hopen), hs.close hb⟩
  | @done i a r hscan hi =>
    have hev : st.eventsIn (.entry a r) = [] := by
      simp only [eventsIn, hscan, if_neg (Nat.not_lt.2 hi)]
    rw [hev]
    exact ⟨Run.nil, hs⟩

/-- **The run lemma.** -/
theorem sessions_run {is : List SelectServer.Input} (h : st.toSelectServer.Inv)
    (hacc : st.accepted = []) (hrun : Run (Step step) st is st') :
    (st'.toSelectServer.Inv ∧ Since st.opened st'.accepted st'.opened) ∧
      Run (Step Sessions.step) (fun _ => false) (st.sessions is)
        (sessionsOf st.opened st'.opened) := by
  have hstart : st.toSelectServer.Inv ∧ Since st.opened st.accepted st.opened := by
    rw [hacc]
    exact ⟨h, since_start _⟩
  refine sessions_of_steps (fun t => t.opened)
    (I := fun t => t.toSelectServer.Inv ∧ Since st.opened t.accepted t.opened) ?_ hstart rfl hrun
  rintro t input u ⟨hinv, hs⟩ hst
  obtain ⟨hev, hs'⟩ := sessions_step hinv hs hst
  exact ⟨⟨table_step hinv hst, hs'⟩, hev⟩

theorem step_listenSock (h : Step step st input st') : st'.listenSock = st.listenSock := by
  cases step_moves h with
  | @select answer hscan => cases answer <;> rfl
  | _ => rfl

/-- **The sessions of `select.cc`.** In a run that has room at every step, whatever else the calls
    answer, `FD_SET` and `FD_ISSET` stay within the set, and the sessions are like those of
    `select_server.cc`, except that a failed `recv` ends none: its session stays open with its
    descriptor and its entry. -/
theorem select_sessions {opened : Fds} {argc : Nat} {a : SetupAnswers}
    (hstd : ∀ k, 0 ≤ k → k < 3 → opened k = true) (is : List SelectServer.Input)
    (hmain : main opened argc a = .ok st) (h : Run (Guarded Room Steps) st is st') (fd : Int)
    (hfd : st.opened fd = false) :
    (∀ k ∈ st'.passed, InSet k) ∧
    ∃ done cur, eventsOf fd (st.sessions is) = sessionWord done cur ∧
      (cur.isSome = true ↔ st'.opened fd = true) ∧
      (cur.isSome = true ↔ fd ∈ st'.fdArray ∧ fd ≠ -1) := by
  refine ⟨(fits_run hstd hmain h).passed, ?_⟩
  have hsteps : Run (Step step) st is st' := h.mono fun _ _ _ hst => hst.2.2
  obtain ⟨hnonneg, -, -, -, hopened, hacc, harr⟩ := main_ok hmain
  have hopen : st.opened st.listenSock = true := by
    rw [hopened]
    exact Function.update_self _ _ _
  have htable₀ := SelectServer.inv_first hnonneg (by decide : num ≠ 0) harr hopen hacc
  obtain ⟨⟨hinv, hs⟩, hrun⟩ := sessions_run htable₀ hacc hsteps
  obtain ⟨done, cur, hword, hcur⟩ := key_sessions hrun fd rfl
  have hlisten : st'.listenSock = st.listenSock :=
    hsteps.invariant (I := fun t => t.listenSock = st.listenSock)
      (fun _ _ _ hI hst => (step_listenSock hst).trans hI) rfl
  have htable := hinv.mem_table hs (by rw [hlisten, hopen]) fd
  have hne : fd ≠ st'.listenSock := by
    rintro rfl
    rw [hlisten, hopen] at hfd
    cases hfd
  rw [hfd] at htable
  refine ⟨done, cur, hword, ?_, ?_⟩
  · rw [← hcur, sessionsOf_true, hfd]
    simp
  · rw [← hcur, sessionsOf_true, hfd, htable]
    simp [hne]

/-- With two clients connected, the first one's session is open and it is in the table. -/
theorem select_sessions_clients :
    ∃ st is st' done cur, main streams 2 goodSetup = .ok st ∧ Run (Guarded Room Steps) st is st' ∧
      (5 : Int) ∈ st'.passed ∧ (∀ k ∈ st'.passed, InSet k) ∧
      eventsOf 4 (st.sessions is) = sessionWord done cur ∧ cur.isSome = true ∧
      (4 : Int) ∈ st'.fdArray := by
  have hnext : ∀ k < 2, ∀ t : Select, t.Clients k →
      ∃ is u, Run (Guarded Room Steps) t is u ∧ u.Clients (k + 1) ∧ (4 + k : Int) ∈ u.passed := by
    intro k hk t ht
    obtain ⟨hselect, hacc⟩ := ht.room (by unfold num; omega)
    obtain ⟨is, u, hrun, hu, hpassed⟩ := ht.next (by unfold num; omega)
      (fun s a => Room s a ∧ LowestFree s a) ⟨hselect, trivial⟩ ⟨hacc, ht.lowest⟩
      fun _ => ⟨trivial, trivial⟩
    exact ⟨is, u, hrun.mono fun _ _ _ hst => ⟨hst.1.1, hst.1.2, hst.2⟩, hu, hpassed⟩
  obtain ⟨st, hmain, h0⟩ := exists_clients
  obtain ⟨is₁, t, hrun₁, h1, -⟩ := hnext 0 (by decide) st h0
  obtain ⟨is₂, st', hrun₂, h2, hpassed⟩ := hnext 1 (by decide) t h1
  have hfd : st.opened 4 = false := h0.unused
  have hrun := hrun₁.append hrun₂
  obtain ⟨hset, done, cur, hword, hopen, htable⟩ :=
    select_sessions streams_open (is₁ ++ is₂) hmain hrun 4 hfd
  have hcur : cur.isSome = true := hopen.2 ((h2.opened 4).2 ⟨by decide, by decide⟩)
  exact ⟨st, is₁ ++ is₂, st', done, cur, hmain, hrun, hpassed, hset, hword, hcur,
    (htable.1 hcur).1⟩

end Select

/-! ## `poll_server.cc` -/

namespace PollServer

variable {st st' : PollServer} {b : Fds} {fd : Int} {i : Nat} {input : Input}

/-- What a step does to the sessions. -/
def eventsIn (st : PollServer) (input : Input) : List (Int × SessionEvent Bytes) :=
  match input, st.scan with
  | .entry a r, some i =>
    if i < st.n then
      match st.todo i with
      | .next => []
      | .accept => acceptEvents a
      | .recv fd => readEvents fd r
    else []
  | _, _ => []

/-- What a run does to the sessions. -/
def sessions (st : PollServer) (is : List Input) : List (Int × SessionEvent Bytes) :=
  emitted step eventsIn st is

/-- The connections that a step accepts and that find no free entry. -/
def losesIn (st : PollServer) (input : Input) : List Int :=
  match input, st.scan with
  | .entry (.ok fd) _, some i =>
    if i < st.n ∧ st.todo i = .accept ∧ ∀ e ∈ st.arr, e.fd ≠ -1 then [fd] else []
  | _, _ => []

/-- What a run loses. -/
def lost (st : PollServer) (is : List Input) : List Int := emitted step losesIn st is

theorem todo_scan (st : PollServer) (scan : Option Nat) (i : Nat) :
    todo { st with scan := scan } i = st.todo i := rfl

section Lost

variable {lost : List Int}

/-- What is read is a connection, open since it was accepted, and not one that was lost. -/
theorem Inv.recv_accepted (h : st.Inv { k | k ∈ lost }) (hs : Since b st.accepted st.opened)
    (htodo : st.todo i = .recv fd) : b fd = false ∧ st.opened fd = true ∧ fd ∉ lost := by
  obtain ⟨e, hi, rfl, hfd, hlisten, -⟩ := todo_recv htodo
  obtain ⟨heq | ⟨hacc, hopen⟩, hlost⟩ := h.table.mem_of_slot hi (slotFd_used hfd)
  · exact absurd heq hlisten
  · exact ⟨hs.apart e.fd hacc, hopen, hlost⟩

/-- **Every step keeps the table**, with what it loses. -/
theorem Inv.step_lost (h : st.Inv { k | k ∈ lost }) (hst : Step step st input st') :
    st'.Inv { k | k ∈ lost ++ st.losesIn input } := by
  by_cases hroom : st.Room input
  · have hnone : st.losesIn input = [] := by
      unfold losesIn
      split
      · rename_i hscan
        apply if_neg
        rintro ⟨hi, htodo, hfull⟩
        obtain ⟨e, he, hfree⟩ := hroom _ hscan hi htodo
        exact hfull e he hfree
      · rfl
    rw [hnone, List.append_nil]
    exact h.step_room hroom hst
  · obtain ⟨i, hscan, hi, htodo, hfull⟩ := not_room hroom
    cases step_moves hst with
    | poll | refused => exact absurd trivial hroom
    | @taken j fd r hscan' _ _ hfd hnew =>
      have hloses : st.losesIn (.entry (.ok fd) r) = [fd] := by
        simp only [losesIn, hscan]
        exact if_pos ⟨hi, htodo, hfull⟩
      rw [hloses]
      have hset : { k | k ∈ lost ++ [fd] } = insert fd { k | k ∈ lost } := by
        ext k
        simp [or_comm]
      rw [hset]
      exact h.dropped hfd hnew hfull
    | next hscan' _ htodo' | read hscan' _ htodo' | closed hscan' _ htodo' =>
      obtain rfl := Option.some.inj (hscan.symm.trans hscan')
      simp [htodo] at htodo'
    | done hscan' hi' =>
      obtain rfl := Option.some.inj (hscan.symm.trans hscan')
      omega

/-- **The step lemma.** -/
theorem sessions_step (h : st.Inv { k | k ∈ lost }) (hs : Since b st.accepted st.opened)
    (hst : Step step st input st') :
    Run (Step Sessions.step) (sessionsOf b st.opened) (st.eventsIn input)
      (sessionsOf b st'.opened) ∧ Since b st'.accepted st'.opened := by
  cases step_moves hst with
  | @poll answer hscan => cases answer <;> exact ⟨Run.nil, hs⟩
  | @next i a r hscan hi htodo =>
    have hev : st.eventsIn (.entry a r) = [] := by
      simp only [eventsIn, hscan, if_pos hi, htodo]
    rw [hev]
    exact ⟨Run.nil, hs⟩
  | @refused i e r hscan hi htodo =>
    have hev : st.eventsIn (.entry (.err e) r) = [] := by
      simp only [eventsIn, hscan, if_pos hi, htodo, acceptEvents]
    rw [hev]
    exact ⟨Run.nil, hs⟩
  | @taken i fd r hscan hi htodo hfd hnew =>
    have hev : st.eventsIn (.entry (.ok fd) r) = [(fd, .start)] := by
      simp only [eventsIn, hscan, if_pos hi, htodo, acceptEvents]
    rw [hev]
    exact ⟨Run.single (step_start (hs.unused hnew) hnew), hs.accept hnew⟩
  | @read i fd a c bytes hscan hi htodo =>
    have hev : st.eventsIn (.entry a (.ok (c :: bytes))) = [(fd, .data (c :: bytes))] := by
      simp only [eventsIn, hscan, if_pos hi, htodo, readEvents]
    rw [hev]
    obtain ⟨hb, hopen, -⟩ := h.recv_accepted hs htodo
    exact ⟨Run.single (step_data hb hopen _), hs⟩
  | @closed i fd a r hscan hi htodo =>
    obtain ⟨hb, hopen, -⟩ := h.recv_accepted hs htodo
    have hend : ∀ c bytes, r ≠ .ok (c :: bytes) := by
      rintro c bytes rfl
      simp only [Step, step, hscan, if_pos hi, todo_scan, htodo, recvEntry, Option.some.injEq] at hst
      have hsame := congrArg (fun t : PollServer => t.opened fd) hst
      simp [Fds.close, hopen] at hsame
    have hev : st.eventsIn (.entry a r) = [(fd, .stop)] := by
      simp only [eventsIn, hscan, if_pos hi, htodo, readEvents_end hend]
    rw [hev]
    exact ⟨Run.single (step_stop hb hopen), hs.close hb⟩
  | @done i a r hscan hi =>
    have hev : st.eventsIn (.entry a r) = [] := by
      simp only [eventsIn, hscan, if_neg (Nat.not_lt.2 hi)]
    rw [hev]
    exact ⟨Run.nil, hs⟩

end Lost

theorem started_accepted (h : Started st) : st.accepted = [] := by
  obtain ⟨opened, argc, a, hmain⟩ := h
  unfold main at hmain
  cases hsetup : setup opened argc a with
  | error e =>
    rw [hsetup] at hmain
    cases hmain
  | ok x =>
    rw [hsetup] at hmain
    obtain rfl := Except.ok.inj hmain
    rfl

/-- What is kept along a run: the table up to some lost connections. -/
def Kept (b : Fds) (st : PollServer) : Prop :=
  (∃ lost : List Int, st.Inv { k | k ∈ lost }) ∧ Since b st.accepted st.opened

theorem kept_started (h0 : Started st) : st.Kept st.opened := by
  have hset : ({ k | k ∈ ([] : List Int) } : Set Int) = ∅ := by
    ext k
    simp
  refine ⟨⟨[], ?_⟩, ?_⟩
  · rw [hset]
    exact (inv_started h0).1
  · rw [started_accepted h0]
    exact since_start _

theorem Kept.step (h : st.Kept b) (hst : Step step st input st') : st'.Kept b ∧
    Run (Step Sessions.step) (sessionsOf b st.opened) (st.eventsIn input)
      (sessionsOf b st'.opened) := by
  obtain ⟨⟨lost, hinv⟩, hs⟩ := h
  obtain ⟨hrun, hs'⟩ := sessions_step hinv hs hst
  exact ⟨⟨⟨_, hinv.step_lost hst⟩, hs'⟩, hrun⟩

/-- **The run lemma.** -/
theorem inv_lost {is : List Input} (h0 : Started st) (h : Run (Step step) st is st') :
    st'.Inv { k | k ∈ st.lost is } := by
  refine h.history (I := fun lost t => t.Inv { k | k ∈ lost }) (fun _ _ _ hst => hst) ?_ ?_
  · exact fun lost t input u ht hst => ht.step_lost hst
  · have hset : ({ k | k ∈ ([] : List Int) } : Set Int) = ∅ := by
      ext k
      simp
    rw [hset]
    exact (inv_started h0).1

/-! ### The connections that are lost -/

/-- The connection is open and not in the table. -/
def Stuck (st : PollServer) (k : Int) : Prop :=
  k ≠ -1 ∧ st.opened k = true ∧ ∀ e ∈ st.arr, e.fd ≠ k

theorem mem_store {newsock : Int} {arr : List PollFd} {e : PollFd} (h : e ∈ store newsock arr) :
    e.fd = newsock ∨ e ∈ arr := by
  rcases store_cases newsock arr with ⟨j, c, hj, -, hstore⟩ | ⟨-, hstore⟩
  · rw [hstore] at h
    rcases List.mem_or_eq_of_mem_set h with hold | rfl
    · exact .inr hold
    · exact .inl rfl
  · rw [hstore] at h
    exact .inr h

theorem Stuck.not_recv {k : Int} (h : st.Stuck k) : st.todo i ≠ .recv k := by
  intro htodo
  obtain ⟨e, hi, hfd, -⟩ := todo_recv htodo
  exact h.2.2 e (List.mem_of_getElem? hi) hfd

/-- What is not in the table is not called and does not get there. -/
theorem Stuck.step {k : Int} (h : st.Stuck k) (hst : Step step st input st') :
    st'.Stuck k ∧ eventsOf k (st.eventsIn input) = [] := by
  obtain ⟨hk, hopen, hout⟩ := h
  cases step_moves hst with
  | @poll answer hscan =>
    have hwrite : ∀ n revents, ∀ e ∈ writeRevents n revents st.arr, e.fd ≠ k := by
      intro n revents e he
      obtain ⟨j, hj⟩ := List.mem_iff_getElem?.1 he
      obtain ⟨c, hc, hfd, -⟩ := writeRevents_entry hj
      rw [hfd]
      exact hout c (List.mem_of_getElem? hc)
    cases answer with
    | err e => exact ⟨⟨hk, hopen, hout⟩, rfl⟩
    | timeout => exact ⟨⟨hk, hopen, hwrite _ _⟩, rfl⟩
    | ready revents => exact ⟨⟨hk, hopen, hwrite _ _⟩, rfl⟩
  | @next i a r hscan hi htodo =>
    refine ⟨⟨hk, hopen, hout⟩, ?_⟩
    simp only [eventsIn, hscan, if_pos hi, htodo]
    rfl
  | @refused i e r hscan hi htodo =>
    refine ⟨⟨hk, hopen, ?_⟩, ?_⟩
    · intro c hc
      rcases mem_store hc with hfd | hold
      · rw [hfd]
        exact hk.symm
      · exact hout c hold
    · simp only [eventsIn, hscan, if_pos hi, htodo, acceptEvents]
      rfl
  | @taken i fd r hscan hi htodo hfd hnew =>
    have hne : fd ≠ k := (ne_of_open hopen hnew).symm
    refine ⟨⟨hk, ?_, ?_⟩, ?_⟩
    · show Function.update st.opened fd true k = true
      rw [Function.update_of_ne hne.symm, hopen]
    · intro c hc
      rcases mem_store hc with hcfd | hold
      · rw [hcfd]
        exact hne
      · exact hout c hold
    · simp only [eventsIn, hscan, if_pos hi, htodo, acceptEvents, eventsOf_ne hne]
  | @read i fd a c bytes hscan hi htodo =>
    have hne : fd ≠ k := by
      rintro rfl
      exact Stuck.not_recv ⟨hk, hopen, hout⟩ htodo
    refine ⟨⟨hk, hopen, hout⟩, ?_⟩
    simp only [eventsIn, hscan, if_pos hi, htodo, readEvents, eventsOf_ne hne]
  | @closed i fd a r hscan hi htodo =>
    have hne : fd ≠ k := by
      rintro rfl
      exact Stuck.not_recv ⟨hk, hopen, hout⟩ htodo
    refine ⟨⟨hk, ?_, ?_⟩, ?_⟩
    · show Function.update st.opened fd false k = true
      rw [Function.update_of_ne hne.symm, hopen]
    · intro c hc
      rcases List.mem_or_eq_of_mem_set hc with hold | rfl
      · exact hout c hold
      · exact hk.symm
    · simp only [eventsIn, hscan, if_pos hi, htodo]
      unfold readEvents
      split <;> exact eventsOf_ne hne
  | @done i a r hscan hi =>
    refine ⟨⟨hk, hopen, hout⟩, ?_⟩
    simp only [eventsIn, hscan, if_neg (Nat.not_lt.2 hi)]
    rfl

/-- A connection that finds no free entry is open and gets into the table nowhere. -/
theorem stuck_of_lost {k : Int} (h : st.Kept b) (hst : Step step st input st')
    (hk : k ∈ st.losesIn input) :
    st'.Stuck k ∧ eventsOf k (st.eventsIn input) = [.start] := by
  obtain ⟨⟨lost, hinv⟩, -⟩ := h
  unfold losesIn at hk
  split at hk
  · rename_i fd r i hscan
    split_ifs at hk with hcase
    · obtain ⟨hi, htodo, hfull⟩ := hcase
      obtain rfl := List.mem_singleton.1 hk
      cases step_moves hst with
      | taken hscan' _ _ hfd hnew =>
        refine ⟨⟨by omega, Function.update_self _ _ _, ?_⟩, ?_⟩
        · have hstore : store k st.arr = st.arr := by
            rcases store_cases k st.arr with ⟨j, e, hj, he, -⟩ | ⟨-, hstore⟩
            · exact absurd he (hfull e (List.mem_of_getElem? hj))
            · exact hstore
          intro e he hek
          -- what is in the table is open already, and `accept` returns what is not
          have hmem : e ∈ st.arr := hstore ▸ he
          obtain ⟨j, hj⟩ := List.mem_iff_getElem?.1 hmem
          have hopen := hinv.entry hj (hfull e hmem)
          rw [hek, hnew] at hopen
          cases hopen
        · simp only [eventsIn, hscan, if_pos hi, htodo, acceptEvents]
          simp [eventsOf]
      | next hscan' _ htodo' | read hscan' _ htodo' | closed hscan' _ htodo' =>
        obtain rfl := Option.some.inj (hscan.symm.trans hscan')
        simp [htodo] at htodo'
      | done hscan' hi' =>
        obtain rfl := Option.some.inj (hscan.symm.trans hscan')
        omega
    · cases hk
  · cases hk

/-- Who holds an open connection: the table, or nobody. -/
theorem Inv.mem_table {lost : List Int} (h : st.Inv { k | k ∈ lost })
    (hs : Since b st.accepted st.opened) (hb : b st.listenSock = true) (hfd : b fd = false) :
    st.opened fd = true ↔ ((∃ e ∈ st.arr, e.fd = fd) ∧ fd ≠ -1) ∨ fd ∈ lost := by
  have hlisten : fd ≠ st.listenSock := by
    rintro rfl
    rw [hb] at hfd
    cases hfd
  constructor
  · intro hopen
    have hacc : fd ∈ st.accepted := by
      rcases hs.new fd hopen with h | h
      · rw [h] at hfd
        cases hfd
      · exact h
    by_cases hl : fd ∈ lost
    · exact .inr hl
    · left
      have hheld : fd ∈ Slots.held entryFd st.arr :=
        (h.table.mem fd).2 ⟨.inr ⟨hacc, hopen⟩, hl⟩
      obtain ⟨j, e, hj, he⟩ := Slots.mem_held.1 hheld
      obtain ⟨hefd, hne⟩ := entryFd_eq_some.1 he
      exact ⟨⟨e, List.mem_of_getElem? hj, hefd⟩, hne⟩
  · rintro (⟨⟨e, he, rfl⟩, hne⟩ | hl)
    · obtain ⟨j, hj⟩ := List.mem_iff_getElem?.1 he
      exact h.entry hj hne
    · exact (h.lostOpen fd hl).2.2

theorem step_listenSock (hst : Step step st input st') : st'.listenSock = st.listenSock := by
  cases step_moves hst with
  | @poll answer hscan => cases answer <;> rfl
  | _ => rfl

/-- **The sessions of `poll_server.cc`.** The calls on each descriptor that was not open at the
    start make up complete sessions and at most one that is open. An open session has its descriptor
    in the table, unless the server lost the connection when it accepted it: then the descriptor
    stays open and outside the table for the rest of the run, and nothing is received from it. -/
theorem pollServer_sessions (is : List Input) (h0 : Started st) (h : Run (Step step) st is st')
    (fd : Int) (hfd : st.opened fd = false) :
    ∃ done cur, eventsOf fd (st.sessions is) = sessionWord done cur ∧
      (cur.isSome = true ↔ st'.opened fd = true) ∧
      (cur.isSome = true ↔ ((∃ e ∈ st'.arr, e.fd = fd) ∧ fd ≠ -1) ∨ fd ∈ st.lost is) ∧
      (fd ∈ st.lost is → cur = some [] ∧ ∀ e ∈ st'.arr, e.fd ≠ fd) := by
  obtain ⟨⟨-, hs⟩, hrun⟩ := sessions_of_steps (fun t => t.opened) (I := Kept st.opened)
    (fun _ _ _ hI hst => hI.step hst) (kept_started h0) rfl h
  obtain ⟨done, cur, hword, hcur⟩ := key_sessions hrun fd rfl
  have hopen : cur.isSome = true ↔ st'.opened fd = true := by
    rw [← hcur, sessionsOf_true, hfd]
    simp
  have hlisten : st'.listenSock = st.listenSock :=
    h.invariant (I := fun t => t.listenSock = st.listenSock)
      (fun _ _ _ hI hst => (step_listenSock hst).trans hI) rfl
  have hb : st.opened st'.listenSock = true := by
    rw [hlisten]
    exact (inv_started h0).1.listenOpen
  refine ⟨done, cur, hword, hopen, ?_, ?_⟩
  · rw [hopen, (inv_lost h0 h).mem_table hs hb hfd]
  · intro hl
    obtain ⟨hstuck, es, hes⟩ := stuck_run (I := Kept st.opened) (fun _ _ _ hst => hst)
      (fun _ _ _ hI hst => (hI.step hst).1)
      (fun s _ _ k _ hst (hk : Stuck s k) => hk.step hst) (fun _ _ _ k hI hst hk => stuck_of_lost hI hst hk)
      (kept_started h0) h hl
    exact ⟨cur_of_start (hword.symm.trans hes), hstuck.2.2⟩

/-- `NUM - 1` connections fill the table, and the next one is lost. -/
theorem pollServer_sessions_lost :
    ∃ st is st' done, Started st ∧ Run (Step step) st is st' ∧ st'.opened 10003 = true ∧
      eventsOf 10003 (st.sessions is) = sessionWord done (some []) ∧
      ∀ e ∈ st'.arr, e.fd ≠ 10003 := by
  obtain ⟨st, h0, hfill⟩ := exists_filling
  obtain ⟨is, t, hrun, hfull⟩ := hfill.fill
  have hnew : t.opened 10003 = false := hfull.unused _ (by decide)
  obtain ⟨is', hrun'⟩ := run_connected (fun _ _ => True) hfull.inv hfull.scan (by decide) hnew
    trivial trivial fun _ => trivial
  have hboth := (hrun.mono fun _ _ _ h => h.2).append (hrun'.mono fun _ _ _ h => h.2)
  have hopen : (t.connected 10003).opened 10003 = true := by
    show Function.update t.opened 10003 true 10003 = true
    exact Function.update_self _ _ _
  have hall : ∀ e ∈ (t.poll (.ready onlyListen)).arr, e.fd ≠ -1 :=
    used_of_full (by rw [free_poll, hfull.free])
  have hout : ¬ ((∃ e ∈ (t.connected 10003).arr, e.fd = 10003) ∧ (10003 : Int) ≠ -1) := by
    rintro ⟨⟨e, he, hfd⟩, -⟩
    have hmem : e ∈ (t.poll (.ready onlyListen)).arr := by
      rcases store_cases 10003 (t.poll (.ready onlyListen)).arr with ⟨j, c, hj, hc, -⟩ | ⟨-, hstore⟩
      · exact absurd hc (hall c (List.mem_of_getElem? hj))
      · exact hstore ▸ he
    obtain ⟨j, hj⟩ := List.mem_iff_getElem?.1 hmem
    have hold := (hfull.inv.poll (.ready onlyListen)).entry hj (hall e hmem)
    rw [hfd, show (t.poll (.ready onlyListen)).opened = t.opened from rfl, hnew] at hold
    cases hold
  obtain ⟨done, cur, hword, hcur, hheld, hlost⟩ :=
    pollServer_sessions _ h0 hboth 10003 (hfill.unused _ (by decide))
  obtain ⟨rfl, hnone⟩ := hlost ((hheld.1 (hcur.2 hopen)).resolve_left hout)
  exact ⟨st, _, _, done, h0, hboth, hopen, hword, hnone⟩

end PollServer

/-! ## `epoll_server(完善版).cc` -/

namespace EpollServer

variable {st st' b : EpollServer} {fd : Int} {rev : Reactor.EpollEvent} {input : Input}
  {lost : List Int}

/-- What a step does to the sessions. -/
def eventsIn (st : EpollServer) (input : Input) : List (Int × SessionEvent Bytes) :=
  match input, st.revs with
  | .entry a _ r, rev :: _ =>
    match st.todo rev with
    | .next => []
    | .accept => acceptEvents a
    | .recv fd => readEvents fd r
  | _, _ => []

/-- What a run does to the sessions. -/
def sessions (st : EpollServer) (is : List Input) : List (Int × SessionEvent Bytes) :=
  emitted step eventsIn st is

/-- What is read is a connection that is registered and open. -/
theorem Inv.recv_opened (h : Inv b lost st) (hrev : rev ∈ st.revs) (htodo : st.todo rev = .recv fd) :
    b.opened fd = false ∧ st.opened fd = true ∧ (st.interest fd).isSome = true := by
  obtain ⟨rfl, hlisten, -⟩ := todo_recv htodo
  obtain ⟨hreg, -⟩ := h.revs rev hrev
  exact ⟨h.conn rev.fd hreg hlisten, h.registered_opened hreg, hreg⟩

/-- **The step lemma.** -/
theorem sessions_step (h : Inv b lost st) (hst : Step step st input st') :
    Run (Step Sessions.step) (sessionsOf b.opened st.opened) (st.eventsIn input)
      (sessionsOf b.opened st'.opened) := by
  cases step_moves hst with
  | failed hrevs => exact Run.nil
  | reported hrevs hrep => exact Run.nil
  | @kept rev revs a add r hrevs hnone hdata =>
    have hmem : rev ∈ st.revs := by
      rw [hrevs]
      exact List.mem_cons_self
    cases htodo : st.todo rev with
    | next =>
      have hev : st.eventsIn (.entry a add r) = [] := by
        simp only [eventsIn, hrevs, htodo]
      rw [hev]
      exact Run.nil
    | accept =>
      obtain ⟨e, rfl⟩ := hnone htodo
      have hev : st.eventsIn (.entry (.err e) add r) = [] := by
        simp only [eventsIn, hrevs, htodo, acceptEvents]
      rw [hev]
      exact Run.nil
    | recv fd =>
      obtain ⟨c, bytes, rfl⟩ := hdata fd htodo
      have hev : st.eventsIn (.entry a add (.ok (c :: bytes))) = [(fd, .data (c :: bytes))] := by
        simp only [eventsIn, hrevs, htodo, readEvents]
      rw [hev]
      obtain ⟨hb, hopen, -⟩ := h.recv_opened hmem htodo
      exact Run.single (step_data hb hopen _)
  | @taken rev revs fd add r hrevs htodo hfd hnew =>
    have hev : st.eventsIn (.entry (.ok fd) add r) = [(fd, .start)] := by
      simp only [eventsIn, hrevs, htodo, acceptEvents]
    rw [hev]
    exact Run.single (step_start (h.unused hnew).1 hnew)
  | @closed rev revs fd a add r hrevs htodo hend =>
    have hmem : rev ∈ st.revs := by
      rw [hrevs]
      exact List.mem_cons_self
    have hev : st.eventsIn (.entry a add r) = [(fd, .stop)] := by
      simp only [eventsIn, hrevs, htodo, readEvents_end hend]
    rw [hev]
    obtain ⟨hb, hopen, -⟩ := h.recv_opened hmem htodo
    exact Run.single (step_stop hb hopen)

/-- The connection is open and not registered. -/
def Stuck (st : EpollServer) (k : Int) : Prop := st.opened k = true ∧ st.interest k = none

/-- What is not registered is not called and does not get registered. -/
theorem Stuck.step {k : Int} (hinv : Inv b lost st) (h : st.Stuck k)
    (hst : Step step st input st') : st'.Stuck k ∧ eventsOf k (st.eventsIn input) = [] := by
  obtain ⟨hopen, hnone⟩ := h
  have hne : ∀ {rev fd}, rev ∈ st.revs → st.todo rev = .recv fd → fd ≠ k := by
    rintro rev fd hrev htodo rfl
    obtain ⟨-, -, hreg⟩ := hinv.recv_opened hrev htodo
    rw [hnone] at hreg
    cases hreg
  cases step_moves hst with
  | failed hrevs => exact ⟨⟨hopen, hnone⟩, rfl⟩
  | reported hrevs hrep => exact ⟨⟨hopen, hnone⟩, rfl⟩
  | @kept rev revs a add r hrevs haccept hdata =>
    refine ⟨⟨hopen, hnone⟩, ?_⟩
    cases htodo : st.todo rev with
    | next => simp [eventsIn, hrevs, htodo, eventsOf]
    | accept =>
      obtain ⟨e, rfl⟩ := haccept htodo
      simp [eventsIn, hrevs, htodo, acceptEvents, eventsOf]
    | recv fd =>
      obtain ⟨c, bytes, rfl⟩ := hdata fd htodo
      have hfd : fd ≠ k := hne (by rw [hrevs]; exact List.mem_cons_self) htodo
      simp only [eventsIn, hrevs, htodo, readEvents, eventsOf_ne hfd]
  | @taken rev revs fd add r hrevs htodo hfd hnew =>
    have hk : k ≠ fd := ne_of_open hopen hnew
    refine ⟨⟨?_, ?_⟩, ?_⟩
    · show Function.update st.opened fd true k = true
      rw [Function.update_of_ne hk, hopen]
    · unfold EpollServer.taken
      split_ifs
      · exact (Function.update_of_ne hk _ _).trans hnone
      · exact hnone
    · simp only [eventsIn, hrevs, htodo, acceptEvents, eventsOf_ne hk.symm]
  | @closed rev revs fd a add r hrevs htodo hend =>
    have hfd : fd ≠ k := hne (by rw [hrevs]; exact List.mem_cons_self) htodo
    refine ⟨⟨?_, ?_⟩, ?_⟩
    · show Function.update st.opened fd false k = true
      rw [Function.update_of_ne hfd.symm, hopen]
    · show Function.update st.interest fd none k = none
      rw [Function.update_of_ne hfd.symm, hnone]
    · simp only [eventsIn, hrevs, htodo, readEvents_end hend, eventsOf_ne hfd]

/-- A connection that cannot be registered is open all the same. -/
theorem stuck_of_lost {k : Int} (hinv : Inv b lost st) (hst : Step step st input st')
    (hk : k ∈ st.losesIn input) :
    st'.Stuck k ∧ eventsOf k (st.eventsIn input) = [.start] := by
  have hnext := hinv.step hst
  have hmem : k ∈ lost ++ st.losesIn input := List.mem_append_right _ hk
  refine ⟨⟨(hnext.opened k).2 (.inr (.inr hmem)), (hnext.apart k hmem).2⟩, ?_⟩
  unfold losesIn at hk
  split at hk
  · rename_i fd add r rev revs hrevs
    split_ifs at hk with hcase
    · obtain rfl := List.mem_singleton.1 hk
      simp only [eventsIn, hrevs, hcase.1, acceptEvents]
      simp [eventsOf]
    · cases hk
  · cases hk

/-- **The sessions of `epoll_server(完善版).cc`.** The calls on each descriptor that was not open at
    the start make up complete sessions and at most one that is open. An open session has its
    descriptor registered, unless `epoll_ctl` failed when it was accepted: then the descriptor stays
    open and unregistered for the rest of the run, and nothing is received from it. -/
theorem epollServer_sessions (is : List Input) (h0 : Started st) (h : Run (Step step) st is st')
    (fd : Int) (hfd : st.opened fd = false) :
    ∃ done cur, eventsOf fd (st.sessions is) = sessionWord done cur ∧
      (cur.isSome = true ↔ st'.opened fd = true) ∧
      (cur.isSome = true ↔ (st'.interest fd).isSome = true ∨ fd ∈ st.lost is) ∧
      (fd ∈ st.lost is → cur = some [] ∧ st'.interest fd = none) := by
  have hkeep : ∀ s a t, (∃ lost, Inv st lost s) → Step step s a t → ∃ lost, Inv st lost t := by
    rintro s a t ⟨lost, hI⟩ hst
    exact ⟨_, hI.step hst⟩
  have hinv := inv_run h0 h
  obtain ⟨-, hrun⟩ := sessions_of_steps (b := st.opened) (fun t => t.opened)
    (I := fun t => ∃ lost, Inv st lost t)
    (fun s a t hI hst => ⟨hkeep s a t hI hst, sessions_step hI.choose_spec hst⟩)
    ⟨[], inv_started h0⟩ rfl h
  obtain ⟨done, cur, hword, hcur⟩ := key_sessions hrun fd rfl
  have hopen : cur.isSome = true ↔ st'.opened fd = true := by
    rw [← hcur, sessionsOf_true, hfd]
    simp
  refine ⟨done, cur, hword, hopen, ?_, ?_⟩
  · rw [hopen, hinv.opened fd, hfd]
    simp
  · intro hl
    obtain ⟨hstuck, es, hes⟩ := stuck_run (I := fun t => ∃ lost, Inv st lost t)
      (fun _ _ _ hst => hst) hkeep
      (fun s _ _ k hI hst (hk : Stuck s k) => hk.step hI.choose_spec hst)
      (fun _ _ _ k hI hst hk => stuck_of_lost hI.choose_spec hst hk)
      ⟨[], inv_started h0⟩ h hl
    exact ⟨cur_of_start (hword.symm.trans hes), hstuck.2⟩

/-- `epoll_ctl` fails for the connection 5 (`ENOMEM`): the server loses it, and serves the next. -/
def oneLost : List Input :=
  [.wait (.ok [(3, Reactor.epollIn)]), .entry (.ok 5) (some (.other 12)) (.ok []),
    .wait (.ok [(3, Reactor.epollIn)]), .entry (.ok 6) none (.ok [])]

theorem epollServer_sessions_lost :
    ∃ st st' done, Started st ∧ Run (Step step) st oneLost st' ∧ st'.opened 5 = true ∧
      st'.interest 5 = none ∧ (st'.interest 6).isSome = true ∧
      eventsOf 5 (st.sessions oneLost) = sessionWord done (some []) := by
  have hmain : (main streams 2 goodSetup (.ok 4) none).toOption.isSome = true := by
    decide +kernel
  cases hst : main streams 2 goodSetup (.ok 4) none with
  | error e => simp [hst, Except.toOption] at hmain
  | ok st =>
    have hrun : ((main streams 2 goodSetup (.ok 4) none).toOption.any fun st =>
        decide (st.opened 5 = false ∧ st.lost oneLost = [5]) &&
          (exec step st oneLost).any fun t => (t.interest 6).isSome) = true := by
      decide +kernel
    simp only [hst, Except.toOption, Option.any_some, Bool.and_eq_true] at hrun
    obtain ⟨hcase, hexec⟩ := hrun
    obtain ⟨hfd, hlost⟩ := of_decide_eq_true hcase
    obtain ⟨t, ht, hsix⟩ := (Option.any_eq_true _ _).1 hexec
    have h0 : Started st := ⟨streams, 2, goodSetup, .ok 4, none, hst⟩
    obtain ⟨done, cur, hword, hopen, -, hstuck⟩ :=
      epollServer_sessions oneLost h0 (exec_run ht) 5 hfd
    obtain ⟨rfl, hnone⟩ := hstuck (by rw [hlost]; exact List.mem_singleton_self _)
    exact ⟨st, t, done, h0, exec_run ht, hopen.1 rfl, hnone, hsix, hword⟩

end EpollServer

end SystemCallLearn.Multiplex
