import SystemCallLearn.Reactor.Proofs.DispatchProofs

/-!
# Which registered descriptors are in non-blocking mode

`SetNonBlock` is called in `main` on the listening socket and nowhere else, so a connection is
registered in the blocking mode in which `accept` returns it. The registered descriptors stay
non-blocking exactly as long as `Accepter` registers none.
-/

namespace SystemCallLearn.Reactor

open SystemCallLearn.Posix SystemCallLearn.Lib

/-- Every registered descriptor is in non-blocking mode. -/
def Server.AllNonBlocking (s : Server) : Prop :=
  ∀ fd evp, s.events fd = some evp → s.NonBlocking fd

def AcceptResult.isOk : AcceptResult → Bool
  | .ok .. => true
  | .err _ => false

/-- No connection is accepted and registered before the `accept` that fails. -/
def RegistersNone (answers : List AcceptResult) : Prop :=
  ∀ fd, .ok fd none ∉ answers.takeWhile AcceptResult.isOk

/-- The step registers no connection. -/
def Quiet (st : Loop) : Input → Prop
  | .read a =>
    ∀ rev revs evp, st.revs = rev :: revs → st.half = .read →
      st.srv.readCall rev = .ok (some (.accepter, evp)) → RegistersNone a.accept
  | _ => True

/-- `main` has set the listening socket to non-blocking mode, or has not registered it. -/
def MainAnswers.Sets (a : MainAnswers) : Prop :=
  a.add ≠ none ∨ a.getfl = none ∧ a.setfl = none

section NonBlock

variable {s t : Server} {evp : EventPtr} {ev : Event} {fd : Int}

/-- A socket is in blocking mode when it is returned, and in non-blocking mode once `O_NONBLOCK` is
    set. -/
theorem oRdwr_blocking : oRdwr &&& oNonblock = 0 := by decide

theorem oNonblock_set : (oRdwr ||| oNonblock) &&& oNonblock ≠ 0 := by decide

theorem registersNone_cons (fd : Int) (add : Option Errno) (rest : List AcceptResult) :
    RegistersNone (.ok fd add :: rest) ↔ add ≠ none ∧ RegistersNone rest := by
  simp only [RegistersNone, List.takeWhile_cons, AcceptResult.isOk, if_true, List.mem_cons, not_or,
    AcceptResult.ok.injEq]
  constructor
  · exact fun h => ⟨fun hadd => (h fd).1 ⟨rfl, hadd.symm⟩, fun fd' => (h fd').2⟩
  · rintro ⟨hadd, hrest⟩ fd'
    exact ⟨fun ⟨_, heq⟩ => hadd heq.symm, hrest fd'⟩

/-! ## The callbacks -/

/-- Registering a connection leaves its descriptor registered and blocking. -/
theorem accepted_blocking (s : Server) (fd : Int) :
    (s.accepted fd none).events fd = some s.next ∧ ¬ (s.accepted fd none).NonBlocking fd := by
  refine ⟨Function.update_self _ _ _, fun h => h ?_⟩
  show (Function.update s.flags fd oRdwr) fd &&& oNonblock = 0
  rw [Function.update_self, oRdwr_blocking]

/-- A registered descriptor keeps its mode while others are accepted. -/
theorem accepted_flags (hs : s.Inv) (hevp : s.events fd = some evp) {fd' : Int}
    (hfd' : s.opened fd' = false) (add : Option Errno) :
    (s.accepted fd' add).flags fd = s.flags fd := by
  have hne : fd ≠ fd' := by
    rintro rfl
    rw [(hs.unregistered hfd').1] at hevp
    cases hevp
  rw [accepted_flags_eq, Function.update_of_ne hne]

theorem accepted_events (hs : s.Inv) (hevp : s.events fd = some evp) {fd' : Int}
    (hfd' : s.opened fd' = false) (add : Option Errno) :
    (s.accepted fd' add).events fd = some evp := by
  have hne : fd ≠ fd' := by
    rintro rfl
    rw [(hs.unregistered hfd').1] at hevp
    cases hevp
  cases add with
  | some e => exact hevp
  | none => exact (Function.update_of_ne hne _ _).trans hevp

/-- `Accepter` leaves a registered descriptor that blocks as it is. -/
theorem accepter_blocking (hs : s.Inv) (hev : s.heap evp = some ev) (hR : ev.R = some s.this)
    {p : EventPtr} (hp : s.events fd = some p) (hblock : ¬ s.NonBlocking fd)
    {answers : List AcceptResult} (h : s.accepter evp answers = .ok t) : ¬ t.AllNonBlocking := by
  have hkept := (accepter_safe (I := fun t => t.events fd = some p ∧ t.flags fd = s.flags fd)
    (fun _ _ _ hI => hI)
    (fun u fd' add hu hI _ hfd' => ⟨accepted_events hu hI.1 hfd' add,
      (accepted_flags hu hI.1 hfd' add).trans hI.2⟩) hs ⟨hp, rfl⟩ hev hR answers).ok h
  intro hall
  apply hblock
  have hnb := hall fd p hkept.2.1
  rwa [Server.NonBlocking, hkept.2.2] at hnb

/-- **`Accepter`.** It leaves all registered descriptors non-blocking if and only if it registers
    none. -/
theorem accepter_nonblock (hs : s.Inv) (hev : s.heap evp = some ev) (hR : ev.R = some s.this)
    (hall : s.AllNonBlocking) {answers : List AcceptResult}
    (h : s.accepter evp answers = .ok t) : t.AllNonBlocking ↔ RegistersNone answers := by
  induction answers generalizing s with
  | nil => cases h
  | cons a rest ih =>
    cases a with
    | err e =>
      simp only [Server.accepter, deref_eq hev, Exec.ok_bind, Server.accept] at h
      obtain rfl := Except.ok.inj h
      exact ⟨fun _ => by simp [RegistersNone, AcceptResult.isOk], fun _ => hall⟩
    | ok fd add =>
      by_cases hnew : 0 ≤ fd ∧ s.opened fd = false
      · rw [accepter_accepted hs hev hR hnew.1 hnew.2] at h
        have hs' := inv_accepted hs fd add
        have hev' := accepted_heap hs hev fd add
        have hR' : ev.R = some (s.accepted fd add).this := by rw [accepted_this, hR]
        rw [registersNone_cons]
        cases add with
        | none =>
          obtain ⟨hstored, hblock⟩ := accepted_blocking s fd
          have hnot := accepter_blocking hs' hev' hR' hstored hblock h
          exact ⟨fun hall' => absurd hall' hnot, fun hquiet => absurd rfl hquiet.1⟩
        | some e =>
          have hall' : (s.accepted fd (some e)).AllNonBlocking := by
            intro fd' p hp
            have hold : s.events fd' = some p := hp
            have hflags := accepted_flags hs hold hnew.2 (some e)
            rw [Server.NonBlocking, hflags]
            exact hall fd' p hp
          rw [ih hs' hev' hR' hall' h]
          simp
      · simp only [Server.accepter, deref_eq hev, Exec.ok_bind, Server.accept, if_neg hnew] at h
        cases h

/-- A callback of a connection registers nothing and changes no mode. -/
theorem finished_nonblock (hall : s.AllNonBlocking) (ht : t.events = s.events)
    (hflags : t.flags = s.flags) (mod : Option Errno) (next : Next) :
    (t.finished evp fd mod next).AllNonBlocking := by
  have hall' : t.AllNonBlocking := by
    intro fd' p hp
    rw [Server.NonBlocking, hflags]
    exact hall fd' p (ht ▸ hp)
  cases next with
  | nothing => exact hall'
  | errer =>
    intro fd' p hp
    simp only [Server.finished, Server.removed, Function.update_apply] at hp
    split_ifs at hp
    exact hall' fd' p hp
  | enableRW read write => cases mod <;> exact hall'

end NonBlock

/-! ## Runs -/

section Run

variable {st st' : Loop}

/-- **The step lemma.** A step leaves all registered descriptors non-blocking if and only if it
    registers no connection. -/
theorem nonblock_step (hst : st.Inv) (hall : st.srv.AllNonBlocking) {i : Input}
    (hstep : st.step i = .ok st') : st'.srv.AllNonBlocking ↔ Quiet st i := by
  cases loop_moves hstep with
  | failed | reported => exact ⟨fun _ => trivial, fun _ => hall⟩
  | @read rev revs a t hrevs hhalf ht =>
    obtain ⟨call, hcall, hfound⟩ := readCall_eq hst.srv rev
    -- only the entry at the head can call `Accepter`
    have hquiet : Quiet st (.read a) ↔
        ∀ evp, call = some (.accepter, evp) → RegistersNone a.accept := by
      refine ⟨fun h evp hc => h rev revs evp hrevs hhalf (hc ▸ hcall), ?_⟩
      intro h rev' revs' evp hrevs' _ hcall'
      obtain ⟨rfl, -⟩ := List.cons.inj (hrevs.symm.trans hrevs')
      exact h evp (Except.ok.inj (hcall.symm.trans hcall'))
    rw [hquiet]
    simp only [Server.readBlock, hcall, Exec.ok_bind] at ht
    cases call with
    | none =>
      obtain rfl := Except.ok.inj ht
      exact ⟨fun _ _ hc => by simp at hc, fun _ => hall⟩
    | some c =>
      obtain ⟨f, evp⟩ := c
      obtain ⟨-, ev, hr, -, hR, hf⟩ := hfound f evp rfl
      cases f with
      | accepter =>
        rw [accepter_nonblock hst.srv hr.live hR hall ht]
        exact ⟨fun h _ _ => h, fun h => h evp rfl⟩
      | recver =>
        have hconn := isConn_of_recver hst.srv hr.live hf
        obtain ⟨r, -, rfl⟩ := (server_recver_safe hst.srv hr hconn hR a).ok ht
        refine ⟨fun _ _ hc => by simp at hc, ?_⟩
        intro _
        exact finished_nonblock (t := st.srv.received evp ev r) hall rfl rfl _ _
  | @write rev revs a t _ _ ht =>
    refine ⟨fun _ => trivial, ?_⟩
    intro _
    rcases writeBlock_cases hst.srv rev a with hnone | ⟨evp, ev, hr, -, hR, hconn, hsnd⟩
    · obtain rfl := Except.ok.inj (hnone.symm.trans ht)
      exact hall
    · obtain ⟨r, -, rfl⟩ := (server_sender_safe hst.srv hr hconn hR a).ok (hsnd.symm.trans ht)
      exact finished_nonblock (t := st.srv.sent evp ev r) hall rfl rfl _ _

/-- `SetNonBlock` sets the flag if both calls of `fcntl` succeed. -/
theorem setNonBlock_flags (s : Server) (fd : Int) (getfl setfl : Option Errno) :
    (s.setNonBlock fd getfl setfl).flags fd =
      if getfl = none ∧ setfl = none then s.flags fd ||| oNonblock else s.flags fd := by
  unfold Server.setNonBlock
  cases getfl <;> cases setfl <;> simp

/-- `main` registers the listening socket, if anything. -/
theorem started_events (s : Server) (fd epfd : Int) (a : MainAnswers) :
    (s.started fd epfd a).events = match a.add with
      | none => Function.update s.events fd (some s.next)
      | some _ => s.events := by
  obtain ⟨flags, errno, hstarted⟩ := started_eq s fd epfd a
  rw [hstarted]
  cases a.add <;> rfl

/-- The mode of the listening socket when `main` enters its loop. -/
theorem started_flags (s : Server) {fd epfd : Int} (hne : fd ≠ epfd) (a : MainAnswers) :
    (s.started fd epfd a).NonBlocking fd ↔ a.getfl = none ∧ a.setfl = none := by
  have hsock : (s.openSock fd).flags fd = oRdwr := Function.update_self _ _ _
  have hset := setNonBlock_flags (s.openSock fd) fd a.getfl a.setfl
  have hkeep : (s.started fd epfd a).flags fd =
      ((s.openSock fd).setNonBlock fd a.getfl a.setfl).flags fd := by
    have hepfd := Function.update_of_ne hne oRdwr
      ((s.openSock fd).setNonBlock fd a.getfl a.setfl).flags
    simp only [Server.started]
    cases a.add <;> exact hepfd
  rw [Server.NonBlocking, hkeep, hset, hsock]
  split_ifs with hboth
  · exact ⟨fun _ => hboth, fun _ => oNonblock_set⟩
  · exact ⟨fun h => absurd oRdwr_blocking h, fun h => absurd h hboth⟩

/-- **`main`.** The listening socket is not registered, or registered in non-blocking mode, if and
    only if the answers of `main` say so. -/
theorem nonblock_main {this : ReactorPtr} {opened : Int → Bool} {flags : Int → Nat} {errno : Errno}
    {argc : Nat} {a : MainAnswers}
    (h : (Server.boot this opened flags errno).main argc a = .ok st) :
    st.srv.AllNonBlocking ↔ a.Sets := by
  obtain ⟨fd, epfd, hne, hsrv, -⟩ := main_eq h
  have hmode := started_flags (Server.boot this opened flags errno) hne a
  have hevents := started_events (Server.boot this opened flags errno) fd epfd a
  rw [hsrv, MainAnswers.Sets]
  cases hadd : a.add with
  | some e =>
    refine ⟨fun _ => .inl (by simp), ?_⟩
    intro _ fd' p hp
    rw [hevents, hadd] at hp
    cases hp
  | none =>
    simp only [hadd] at hevents
    refine ⟨fun hall => .inr (hmode.1 (hall fd 0 ?_)), ?_⟩
    · rw [hevents, Function.update_self]
      rfl
    · intro hsets fd' p hp
      rw [hevents, Function.update_apply] at hp
      split_ifs at hp with hfd
      · rw [hfd]
        exact hmode.2 (hsets.resolve_left (by simp))
      · cases hp

/-- **The registered descriptors are non-blocking exactly as long as no connection is registered.**
    When `main` enters its loop they are if and only if `Sets`; each step of a run keeps them so if
    and only if it is `Quiet`; and they are in every state of a run whose steps are all quiet. -/
theorem registered_nonblocking_iff (this : ReactorPtr) (opened : Int → Bool) (flags : Int → Nat)
    (errno : Errno) (argc : Nat) (a : MainAnswers) (st : Loop)
    (hmain : (Server.boot this opened flags errno).main argc a = .ok st) (is : List Input)
    (st' : Loop) :
    (st.srv.AllNonBlocking ↔ a.Sets) ∧
    (a.Sets → Run (Guarded Quiet Loop.Steps) st is st' → st'.srv.AllNonBlocking) ∧
    (Run Loop.Steps st is st' → st'.srv.AllNonBlocking → ∀ i st'', st'.step i = .ok st'' →
      (st''.srv.AllNonBlocking ↔ Quiet st' i)) := by
  have h0 : Started st := ⟨this, opened, flags, errno, argc, a, hmain⟩
  refine ⟨nonblock_main hmain, ?_, fun hrun hall i st'' hstep =>
    nonblock_step (loop_run h0 hrun) hall hstep⟩
  intro hsets hrun
  refine (hrun.invariant (I := fun st => st.Inv ∧ st.srv.AllNonBlocking) (?_)
    ⟨inv_started h0, (nonblock_main hmain).2 hsets⟩).2
  intro _ i _ hi hst
  exact ⟨(loop_step hi.1 i).ok hst.2, (nonblock_step hi.1 hi.2 hst.2).2 hst.1⟩

/-- No client connects: a call of `Accepter` finds nothing. -/
def idleInputs : List Input :=
  [.wait (.ok [(3, epollIn)]), .read { Answers.none with accept := [.err .eagain] },
   .write Answers.none]

/-- The listening socket stays non-blocking while no client connects, and a step that registers a
    connection is not quiet. -/
theorem registered_nonblocking_iff_idle :
    ∃ st st', Server.fresh.main 2 .good = .ok st ∧
      Run (Guarded Quiet Loop.Steps) st idleInputs st' ∧ st'.srv.AllNonBlocking ∧
      st'.srv.events 3 = some 0 ∧
      ∀ st'', st'.step (.wait (.ok [])) = .ok st'' → st''.srv.AllNonBlocking := by
  obtain ⟨st, st', hmain, hrun, hp⟩ := exists_run .good idleInputs
    (p := fun st => decide (st.srv.events 3 = some 0)) (by decide +kernel)
  have hrun' : Run (Guarded Quiet Loop.Steps) st idleInputs st' := by
    apply hrun.guarded
    intro i hi _
    simp only [idleInputs, List.mem_cons, List.not_mem_nil, or_false] at hi
    rcases hi with rfl | rfl | rfl
    · trivial
    · intro _ _ _ _ _ _
      simp [RegistersNone, AcceptResult.isOk]
    · trivial
  have hsets : MainAnswers.good.Sets := .inr ⟨rfl, rfl⟩
  obtain ⟨-, hquiet, hstep⟩ := registered_nonblocking_iff _ _ _ _ _ _ _ hmain idleInputs st'
  have hall := hquiet hsets hrun'
  exact ⟨st, st', hmain, hrun', hall, of_decide_eq_true hp,
    fun st'' h => (hstep hrun hall _ st'' h).2 trivial⟩

/-- **A registered connection blocks.** One client connects: its descriptor 5 is registered and not
    in non-blocking mode. -/
theorem accepted_connection_blocks :
    ∃ st st', Started st ∧
      Run Loop.Steps st
        [.wait (.ok [(3, epollIn)]),
         .read { Answers.none with accept := [.ok 5 none, .err .eagain] }] st' ∧
      st'.srv.events 5 = some 1 ∧ ¬ st'.srv.NonBlocking 5 ∧ ¬ st'.srv.AllNonBlocking := by
  obtain ⟨st, st', hmain, hrun, hp⟩ := exists_run .good
    [.wait (.ok [(3, epollIn)]),
      .read { Answers.none with accept := [.ok 5 none, .err .eagain] }]
    (p := fun st => decide (st.srv.events 5 = some 1 ∧ ¬ st.srv.NonBlocking 5)) (by decide +kernel)
  obtain ⟨hevp, hblock⟩ := of_decide_eq_true hp
  exact ⟨st, st', ⟨_, _, _, _, _, _, hmain⟩, hrun, hevp, hblock, fun hall => hblock (hall 5 1 hevp)⟩

end Run

end SystemCallLearn.Reactor
