import SystemCallLearn.Reactor.Proofs.ConversationProofs
import SystemCallLearn.Reactor.Proofs.NonBlockProofs

/-!
# The server answers nobody

`RecverCore` leaves its loop with success when `recv` would block. An accepted socket is in blocking
mode, where `recv` waits instead, so a call of `Recver` that returns has seen the end of the
connection or an error, and ends it: what has been asked is dropped with the `Event`. `EPOLLOUT` is
then never asked for, and `send` never called.
-/

namespace SystemCallLearn.Reactor

open SystemCallLearn.Posix SystemCallLearn.Lib

/-- `recv` does not answer that it would block. -/
def Waits (answers : List RecvResult) : Prop :=
  .err .eagain ∉ answers ∧ .err .ewouldblock ∉ answers

/-- What the kernel answers: `epoll_wait` reports `EPOLLOUT` of a descriptor that is registered for
    it, and `recv` waits in blocking mode. -/
def KernelGives (st : Loop) : Input → Prop
  | .wait (.ok reports) => ∀ r ∈ reports, ∀ e ∈ st.srv.interest r.1,
      r.2 &&& epollOut ≠ 0 → e.events &&& epollOut ≠ 0
  | .read a => ∀ rev ∈ st.revs.head?, ¬ st.srv.NonBlocking rev.fd → Waits a.recv
  | .wait (.err _) | .write _ => True

instance (answers : List RecvResult) : Decidable (Waits answers) :=
  inferInstanceAs (Decidable (_ ∧ _))

instance (st : Loop) (i : Input) : Decidable (KernelGives st i) :=
  match i with
  | .wait (.ok _) => inferInstanceAs (Decidable (∀ _ ∈ _, _))
  | .read _ => inferInstanceAs (Decidable (∀ _ ∈ _, _))
  | .wait (.err _) | .write _ => inferInstanceAs (Decidable True)

/-- The call of `Recver` that ends a connection. -/
def HandlerCall.Waits (x : HandlerCall) : Prop :=
  ∃ errno frame answers, x.op = .recver errno frame answers ∧ Reactor.Waits answers

/-! ## `Recver` on a socket that blocks -/

section Recver

variable {errno : Errno} {frame : Frame} {inbuffer outbuffer : Bytes} {answers : List RecvResult}

theorem verdict_waits (h : Waits answers) : verdict answers ≠ some 1 := by
  induction answers with
  | nil => simp [verdict]
  | cons a rest ih =>
    have hrest : Waits rest := ⟨fun hmem => h.1 (List.mem_cons_of_mem a hmem),
      fun hmem => h.2 (List.mem_cons_of_mem a hmem)⟩
    cases a with
    | ok bytes =>
      unfold verdict
      split_ifs
      · exact ih hrest
      · simp
    | err e =>
      unfold verdict
      split_ifs with hintr hblock
      · exact ih hrest
      · rcases hblock with rfl | rfl
        · exact absurd List.mem_cons_self h.1
        · exact absurd List.mem_cons_self h.2
      · simp

/-- A call of `Recver` that returns ends the connection and answers nothing. -/
theorem recver_waits (h : Waits answers) {r : RecverRun}
    (hr : recver errno frame inbuffer outbuffer answers = some r) :
    r.next = .errer ∧ r.outbuffer = outbuffer := by
  rcases recver_cases hr with ⟨hone, -⟩ | ⟨-, -, hout, -, hnext⟩
  · exact absurd hone (verdict_waits h)
  · exact ⟨hnext, hout⟩

end Recver

/-! ## What is reported -/

section Convert

variable {s : Server} {rev : EpollEvent} {events : UInt32}

theorem in_of_converted (x : UInt32) : (x ||| (epollIn ||| epollOut)) &&& epollIn ≠ 0 := by
  have hbit : ((x ||| (epollIn ||| epollOut)) &&& epollIn).toBitVec.getLsbD 0 = true := by
    simp [epollIn, epollOut]
  intro hzero
  rw [hzero] at hbit
  simp at hbit

/-- Without `EPOLLOUT` the write block runs for an error or a hang-up, and the read block with it. -/
theorem convert_in (h : events &&& epollOut = 0) (hout : convert events &&& epollOut ≠ 0) :
    convert events &&& epollIn ≠ 0 := by
  unfold convert at hout ⊢
  simp only at hout ⊢
  split_ifs at hout ⊢
  · exact in_of_converted _
  · exact in_of_converted _
  · exact in_of_converted _
  · exact absurd h hout

theorem writeCall_none (h : convert rev.events &&& epollOut = 0) :
    s.writeCall rev = .ok none := by
  simp [Server.writeCall, h]

end Convert

/-! ## The process -/

/-- Nothing has been sent, every descriptor is registered for input only, and the connections are in
    blocking mode. -/
structure Server.Silent (s : Server) : Prop where
  unsent : ∀ sock outbuffer call, .send sock outbuffer call ∉ s.log
  asks : ∀ fd e, s.interest fd = some e → e.events = epollIn ||| epollEt
  blocking : ∀ evp ev, s.Registered evp ev → ev.IsConn → ¬ s.NonBlocking ev.sock

section Server

variable {s t : Server} {evp p : EventPtr} {ev : Event} {fd : Int} {rev : EpollEvent}

theorem silent_errno (h : s.Silent) (e : Errno) : Server.Silent { s with errno := e } :=
  ⟨h.unsent, h.asks, fun q ev hq => h.blocking q ev ⟨hq.live, hq.stored⟩⟩

theorem silent_accepted (h : s.Silent) (fd : Int) (add : Option Errno) :
    (s.accepted fd add).Silent := by
  refine ⟨?_, ?_, ?_⟩
  · rw [accepted_log]
    exact h.unsent
  · intro fd' e he
    cases add with
    | some _ => exact h.asks fd' e he
    | none =>
      have hupdate : Function.update s.interest fd
          (some { events := epollIn ||| epollEt, fd := fd }) fd' = some e := he
      rw [Function.update_apply] at hupdate
      split_ifs at hupdate
      · rw [← Option.some.inj hupdate]
      · exact h.asks fd' e hupdate
  · intro q ev₀ hr hconn
    rw [Server.NonBlocking, accepted_flags_eq, Function.update_apply]
    split_ifs with hsock
    · simp [oRdwr_blocking]
    · have hlive := hr.live
      rw [accepted_heap_eq, Function.update_apply] at hlive
      split_ifs at hlive with hq
      · obtain rfl := Option.some.inj hlive
        exact absurd rfl hsock
      · refine h.blocking q ev₀ ⟨hlive, ?_⟩ hconn
        have hstored := hr.stored
        cases add with
        | some _ => exact hstored
        | none => exact (Function.update_of_ne hsock _ _).symm.trans hstored

/-- A connection that ends takes its `Event` with it. -/
theorem silent_removed (h : s.Silent) (evp : EventPtr) (ev ev' : Event) (errno : Errno)
    {acts : List Action} (hacts : ∀ sock outbuffer call, .send sock outbuffer call ∉ acts) :
    ((s.touched evp ev' errno acts).removed evp ev.sock).Silent := by
  refine ⟨?_, ?_, ?_⟩
  · intro sock outbuffer call hmem
    rcases List.mem_append.1 (List.mem_of_ne_of_mem (by simp) hmem) with hnow | hold
    · exact hacts sock outbuffer call hnow
    · exact h.unsent sock outbuffer call hold
  · intro fd' e he
    simp only [Server.removed, Server.touched, Function.update_apply] at he
    split_ifs at he
    exact h.asks fd' e he
  · intro q ev₀ hq hconn
    have hlive := hq.live
    have hstored := hq.stored
    simp only [Server.removed, Server.touched, Function.update_apply] at hlive hstored
    split_ifs at hlive hstored
    exact h.blocking q ev₀ ⟨hlive, hstored⟩ hconn

/-- What a block does to the process: nothing has been sent, no deletion is undone, and of the
    `Event` at `evp` it calls nothing, or the `Recver` that ends it. -/
structure EndsOrNone (evp : EventPtr) (s : Server) (xs : List HandlerCall) (t : Server) : Prop where
  silent : t.Silent
  kept : ∀ q ∈ deletions s.log, q ∈ deletions t.log
  calls : xs = [] ∨ ∃ x, xs = [x] ∧ x.Waits ∧ evp ∉ deletions s.log ∧ evp ∈ deletions t.log

/-- **`Recver` on a connection that blocks.** Its descriptor is not registered afterwards. -/
theorem silent_recver (hs : s.Inv) (h : s.Silent) (hr : s.Registered p ev) (hconn : ev.IsConn)
    (hR : ev.R = some s.this) {a : Answers} (ha : Waits a.recv) (ht : s.recver p a = .ok t)
    (evp : EventPtr) :
    EndsOrNone evp s (s.madeOn evp p (.recver s.errno a.frame a.recv)) t ∧
      t.events ev.sock = none := by
  obtain ⟨r, hrun, rfl⟩ := (server_recver_safe hs hr hconn hR a).ok ht
  obtain ⟨hnext, hout⟩ := recver_waits ha hrun
  rw [hnext]
  simp only [Server.received, hout, if_true, Server.finished]
  refine ⟨⟨silent_removed h p ev _ _ (by simp), ?_, ?_⟩, Function.update_self _ _ _⟩
  · intro q hq
    exact List.mem_cons_of_mem _ hq
  · rw [madeOn_eq hr.live]
    split_ifs with hp
    · subst hp
      exact .inr ⟨_, rfl, ⟨_, _, _, rfl, ha⟩, hs.notMem_deletions hr.live, List.mem_cons_self⟩
    · exact .inl rfl

/-- `Accepter` sends nothing and leaves its own `Event` where it is. -/
theorem silent_accepter (hs : s.Inv) (h : s.Silent) (hr : s.Registered p ev)
    (hR : ev.R = some s.this) {answers : List AcceptResult} (ht : s.accepter p answers = .ok t) :
    t.Silent ∧ t.log = s.log ∧ t.heap p = some ev ∧ t.events ev.sock = some p := by
  have hrule := (accepter_safe (I := fun t => t.Silent ∧ t.log = s.log ∧ t.heap p = some ev)
    (fun _ e _ hI => ⟨silent_errno hI.1 e, hI.2⟩)
    (fun u fd add hu hI _ _ => ⟨silent_accepted hI.1 fd add, (accepted_log u fd add).trans hI.2.1,
      accepted_heap hu hI.2.2 fd add⟩) hs ⟨h, rfl, hr.live⟩ hr.live hR answers).ok ht
  have hkeep := ((accepter_keeps hs hr hR answers).ok ht).2
  exact ⟨hrule.2.1, hrule.2.2.1, hrule.2.2.2, hkeep _ _ hr.stored⟩

/-- The read block. If it runs, no connection is registered for the descriptor afterwards. -/
theorem silent_readBlock (hs : s.Inv) (h : s.Silent) {a : Answers}
    (ha : ¬ s.NonBlocking rev.fd → Waits a.recv) (ht : s.readBlock rev a = .ok t)
    (evp : EventPtr) :
    EndsOrNone evp s (s.readOn evp rev a) t ∧
      (convert rev.events &&& epollIn ≠ 0 →
        ∀ q ev, t.Registered q ev → ev.sock = rev.fd → ¬ ev.IsConn) := by
  obtain ⟨call, hcall, hfound⟩ := readCall_eq hs rev
  simp only [Server.readBlock, hcall, Exec.ok_bind] at ht
  simp only [Server.readOn, hcall]
  cases call with
  | none =>
    obtain rfl := Except.ok.inj ht
    refine ⟨⟨h, fun _ hq => hq, .inl rfl⟩, ?_⟩
    intro hin q ev hr hsock hconn
    simp [Server.readCall, hin, ← hsock, hr.stored, deref_eq hr.live, hconn.1] at hcall
  | some x =>
    obtain ⟨f, p⟩ := x
    obtain ⟨-, ev, hr, hsock, hR, hf⟩ := hfound f p rfl
    cases f with
    | accepter =>
      obtain ⟨hsilent, hlog, hlive, hstored⟩ := silent_accepter hs h hr hR ht
      refine ⟨⟨hsilent, fun _ hq => hlog ▸ hq, .inl rfl⟩, ?_⟩
      intro _ q ev₀ hq hsock₀ hconn
      rw [hsock, ← hsock₀, hq.stored] at hstored
      obtain rfl := Option.some.inj hstored
      obtain rfl := Option.some.inj (hlive.symm.trans hq.live)
      have hrecver := hf.symm.trans hconn.1
      cases hrecver
    | recver =>
      have hconn := isConn_of_recver hs hr.live hf
      have hblock := h.blocking p ev hr hconn
      obtain ⟨hends, hnone⟩ := silent_recver hs h hr hconn hR (ha (hsock ▸ hblock)) ht evp
      refine ⟨hends, ?_⟩
      intro _ q ev₀ hq hsock₀ _
      have hstored := hq.stored
      rw [hsock₀, ← hsock, hnone] at hstored
      cases hstored

end Server

/-! ## The loop -/

/-- The process is silent; a write block to come has its read block before it, and behind that read
    block no connection is registered for the entry. -/
structure Loop.Silent (st : Loop) : Prop where
  srv : st.srv.Silent
  revs : ∀ rev ∈ st.revs, convert rev.events &&& epollOut ≠ 0 → convert rev.events &&& epollIn ≠ 0
  ended : st.half = .write → ∀ rev revs, st.revs = rev :: revs →
    convert rev.events &&& epollIn ≠ 0 →
    ∀ q ev, st.srv.Registered q ev → ev.sock = rev.fd → ¬ ev.IsConn

section Loop

variable {st st' : Loop} {i : Input} {is : List Input}

/-- What is reported asks for no `Sender`. -/
theorem silent_entries {s : Server} (h : s.Silent) {reports : List (Int × UInt32)}
    (hout : ∀ r ∈ reports, ∀ e ∈ s.interest r.1,
      r.2 &&& epollOut ≠ 0 → e.events &&& epollOut ≠ 0) {rev : EpollEvent}
    (hrev : rev ∈ s.entries reports) (hconv : convert rev.events &&& epollOut ≠ 0) :
    convert rev.events &&& epollIn ≠ 0 := by
  obtain ⟨r, hr, hentry⟩ := List.mem_filterMap.1 hrev
  obtain ⟨e, he, rfl⟩ := Option.map_eq_some_iff.1 hentry
  refine convert_in ?_ hconv
  by_contra hne
  have hmask := hout r hr e he hne
  rw [h.asks _ e he] at hmask
  exact absurd (by decide) hmask

/-- **The step lemma.** -/
theorem silent_step (hst : st.Inv) (h : st.Silent) (hk : KernelGives st i)
    (hstep : st.step i = .ok st') (evp : EventPtr) :
    st'.Silent ∧ EndsOrNone evp st.srv (st.callsOn evp i) st'.srv := by
  cases loop_moves hstep with
  | @failed e hrevs =>
    have hsilent := silent_errno h.srv e
    refine ⟨⟨hsilent, h.revs, ?_⟩, hsilent, fun _ hq => hq, .inl rfl⟩
    intro _ rev revs hcons
    rw [hrevs] at hcons
    cases hcons
  | reported hrevs hrep =>
    exact ⟨⟨h.srv, fun rev hrev => silent_entries h.srv hk hrev, fun hw => by cases hw⟩,
      h.srv, fun _ hq => hq, .inl rfl⟩
  | @read rev revs a t hrevs hhalf ht =>
    have hread := silent_readBlock hst.srv h.srv (hk rev (by simp [hrevs])) ht
    refine ⟨⟨(hread evp).1.silent, h.revs, ?_⟩, ?_⟩
    · intro _ rev' revs' hcons
      obtain ⟨rfl, -⟩ := List.cons.inj (hrevs.symm.trans hcons)
      exact (hread evp).2
    · simp only [Loop.callsOn, hrevs]
      exact (hread evp).1
  | @write rev revs a t hrevs hhalf ht =>
    have hnone : st.srv.writeCall rev = .ok none := by
      by_cases hout : convert rev.events &&& epollOut = 0
      · exact writeCall_none hout
      · have hin := h.revs rev (by simp [hrevs]) hout
        obtain ⟨call, hcall, hfound⟩ := writeCall_eq hst.srv rev
        cases call with
        | none => exact hcall
        | some x =>
          obtain ⟨f, p⟩ := x
          obtain ⟨-, ev, hr, hsock, -, hf⟩ := hfound f p rfl
          exact absurd (isConn_of_sender hst.srv hr.live hf)
            (h.ended hhalf rev revs hrevs hin p ev hr hsock)
    simp only [Server.writeBlock, hnone, Exec.ok_bind] at ht
    obtain rfl := Except.ok.inj ht
    refine ⟨⟨h.srv, ?_, fun hw => by cases hw⟩, h.srv, fun _ hq => hq, .inl ?_⟩
    · intro rev' hrev'
      exact h.revs rev' (by simp [hrevs, show rev' ∈ revs from hrev'])
    · simp only [Loop.callsOn, hrevs, Server.writeOn, hnone]

theorem silent_started (h0 : Started st) : st.Silent := by
  obtain ⟨this, opened, flags, errno, argc, a, hmain⟩ := h0
  obtain ⟨fd, epfd, -, hsrv, -, hrevs, hhalf⟩ := main_eq hmain
  obtain ⟨flags', errno', hstarted⟩ := started_eq (Server.boot this opened flags errno) fd epfd a
  rw [hstarted] at hsrv
  have hlog : st.srv.log = [] := by
    rw [hsrv]
    cases a.add <;> rfl
  have hheap : st.srv.heap =
      Function.update (fun _ => none) 0 (some (listenEvent fd (some this))) := by
    rw [hsrv]
    cases a.add <;> rfl
  refine ⟨⟨?_, ?_, ?_⟩, ?_, ?_⟩
  · simp [hlog]
  · intro fd' e he
    rw [hsrv] at he
    cases hadd : a.add with
    | some _ =>
      rw [hadd] at he
      cases he
    | none =>
      have hupdate : Function.update (fun _ => none) fd
          (some ({ events := epollIn ||| epollEt, fd := fd } : EpollEvent)) fd' = some e := by
        rw [hadd] at he
        exact he
      rw [Function.update_apply] at hupdate
      split_ifs at hupdate
      rw [← Option.some.inj hupdate]
  · intro q ev hr hconn
    have hlive := hr.live
    rw [hheap, Function.update_apply] at hlive
    split_ifs at hlive
    obtain rfl := Option.some.inj hlive
    cases hconn.1
  · simp [hrevs]
  · intro hw
    rw [hhalf] at hw
    cases hw

/-- **The run lemma.** -/
theorem silent_run (h0 : Started st) (h : Run (Guarded KernelGives Loop.Steps) st is st')
    (evp : EventPtr) :
    st'.Silent ∧ (st.calls evp is = [] ∨
      ∃ x, st.calls evp is = [x] ∧ x.Waits ∧ evp ∈ deletions st'.srv.log) := by
  suffices hrun : st'.Inv ∧ st'.Silent ∧ (st.calls evp is = [] ∨
      ∃ x, st.calls evp is = [x] ∧ x.Waits ∧ evp ∈ deletions st'.srv.log) from hrun.2
  refine h.history (I := fun (xs : List HandlerCall) st => st.Inv ∧ st.Silent ∧
    (xs = [] ∨ ∃ x, xs = [x] ∧ x.Waits ∧ evp ∈ deletions st.srv.log))
    (fun u i v hst => loop_next u i v hst.2) ?_ ⟨inv_started h0, silent_started h0, .inl rfl⟩
  · rintro xs u i v ⟨hu, hsilent, hxs⟩ ⟨hk, hst⟩
    obtain ⟨hsilent', hends⟩ := silent_step hu hsilent hk hst evp
    refine ⟨(loop_step hu i).ok hst, hsilent', ?_⟩
    rcases hends.calls with hnone | ⟨x, hx, hwaits, hlive, hgone⟩
    · rw [hnone, List.append_nil]
      rcases hxs with hxs | ⟨x, hx, hwaits, hgone⟩
      · exact .inl hxs
      · exact .inr ⟨x, hx, hwaits, hends.kept evp hgone⟩
    · rcases hxs with rfl | ⟨-, -, -, hgone'⟩
      · exact .inr ⟨x, hx, hwaits, hgone⟩
      · exact absurd hgone' hlive

/-- **The server answers nobody.** In every run of the server on a kernel whose `recv` waits in
    blocking mode and whose `epoll_wait` reports what it has been asked for, with any clients,
    nothing is ever sent. A connection that is registered has never been read: its buffers are empty
    and it asks for input only. Every other `Event` has had no call at all, or one call of `Recver`,
    which has deleted it with all that it had been asked. -/
theorem server_answers_nobody (h0 : Started st)
    (h : Run (Guarded KernelGives Loop.Steps) st is st') :
    (∀ sock outbuffer call, .send sock outbuffer call ∉ st'.srv.log) ∧
    (∀ evp ev, st'.srv.Registered evp ev → ev.IsConn → st.calls evp is = [] ∧
      ev.inbuffer = [] ∧ ev.outbuffer = [] ∧
      st'.srv.interest ev.sock = some { events := epollIn ||| epollEt, fd := ev.sock }) ∧
    ∀ evp, st.calls evp is = [] ∨ ∃ x, st.calls evp is = [x] ∧ x.Waits ∧ told [x] = [] ∧
      st'.srv.heap evp = none := by
  have hsteps : Run Loop.Steps st is st' := h.mono fun _ _ _ hst => hst.2
  have hinv := loop_run h0 hsteps
  refine ⟨(silent_run h0 h 0).1.srv.unsent, ?_, ?_⟩
  · intro evp ev hr hconn
    obtain ⟨hsilent, hcalls⟩ := silent_run h0 h evp
    have hnone : st.calls evp is = [] := by
      rcases hcalls with hnone | ⟨-, -, -, hgone⟩
      · exact hnone
      · exact absurd hgone (hinv.srv.notMem_deletions hr.live)
    obtain ⟨c, hmade, htracks⟩ := server_refines_conn h0 hsteps evp
    rw [hnone] at hmade
    obtain ⟨-, hin, hout⟩ := htracks.live ev hr.live hconn
    obtain ⟨e, he⟩ := hinv.srv.interest hr
    obtain rfl := hmade.eq_of_nil
    refine ⟨hnone, hin.symm, hout.symm, ?_⟩
    rw [he, ← hsilent.srv.asks _ e he, ← hinv.srv.data _ e he]
  · intro evp
    rcases (silent_run h0 h evp).2 with hnone | ⟨x, hx, hwaits, hgone⟩
    · exact .inl hnone
    · refine .inr ⟨x, hx, hwaits, ?_, (hinv.srv.gone evp hgone).1⟩
      obtain ⟨errno, frame, answers, hop, -⟩ := hwaits
      simp [told, HandlerCall.sent, hop]

/-- Three connections are accepted. The first client sends `1+2X` and shuts its connection down, the
    second one resets it, and the third one is not heard. -/
def silentInputs : List Input :=
  [.wait (.ok [(3, epollIn)]),
   .read { Answers.none with accept := [.ok 5 none, .ok 6 none, .ok 7 none, .err .eagain] },
   .write Answers.none,
   .wait (.ok [(5, epollIn), (6, epollIn ||| epollErr ||| epollHup)]),
   .read { Answers.none with recv := [.ok [49, 43, 50, 88], .err .eintr, .ok []] },
   .write Answers.none,
   .read { Answers.none with recv := [.err (.other 104)] },
   .write Answers.none]

/-- The request of the first client has been received and is gone with its `Event`, and the third
    one has not been read. -/
theorem server_answers_nobody_three : ∃ st st', Started st ∧
    Run (Guarded KernelGives Loop.Steps) st silentInputs st' ∧
    heard (st.calls 1 silentInputs) = [49, 43, 50, 88] ∧
    told (st.calls 1 silentInputs) = [] ∧ st'.srv.heap 1 = none ∧
    (∀ sock outbuffer call, .send sock outbuffer call ∉ st'.srv.log) ∧
    st'.srv.Registered 3 (connEvent 7 (some 0)) ∧ st.calls 3 silentInputs = [] := by
  have hall : ((Server.fresh.main 2 .good).toOption.any fun st =>
      decide (heard (st.calls 1 silentInputs) = [49, 43, 50, 88]) &&
      (exec (fun st i => if KernelGives st i then (st.step i).toOption else none) st
        silentInputs).any fun st' => decide (st'.srv.heap 3 = some (connEvent 7 (some 0)) ∧
          st'.srv.events 7 = some 3)) = true := by
    decide +kernel
  obtain ⟨st, hmain, hst⟩ := (Option.any_eq_true ..).1 hall
  obtain ⟨hheard, hexec⟩ := Bool.and_eq_true_iff.1 hst
  obtain ⟨st', hst', hheap, hstored⟩ := exists_of_any hexec
  have hheard' := of_decide_eq_true hheard
  have h0 : Started st := ⟨_, _, _, _, _, _, eq_ok_of_toOption hmain⟩
  have hrun : Run (Guarded KernelGives Loop.Steps) st silentInputs st' := exec_guarded_ok hst'
  have hthird : st'.srv.Registered 3 (connEvent 7 (some 0)) := ⟨hheap, hstored⟩
  obtain ⟨hunsent, hunread, hended⟩ := server_answers_nobody h0 hrun
  have hfirst : told (st.calls 1 silentInputs) = [] ∧ st'.srv.heap 1 = none := by
    rcases hended 1 with hnone | ⟨x, hx, -, htold, hfreed⟩
    · rw [hnone] at hheard'
      cases hheard'
    · exact ⟨hx ▸ htold, hfreed⟩
  exact ⟨st, st', h0, hrun, hheard', hfirst.1, hfirst.2, hunsent, hthird,
    (hunread 3 _ hthird (connEvent_isConn _ _)).1⟩

end Loop

end SystemCallLearn.Reactor
