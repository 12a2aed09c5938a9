import SystemCallLearn.Reactor.Proofs.DispatchProofs
import SystemCallLearn.Reactor.Proofs.RecverProofs

/-!
# No response is stranded under edge triggering

A connection with output is armed: its mask has `EPOLLOUT`, and the last `epoll_ctl` that set it
came after the last append to the output and the last `send`. The invariant is a fact about each
descriptor, kept by whatever happens at the others (`ArmedAt.frame`); at its own descriptor a
callback leaves the output empty, re-arms it, or deletes the connection.
-/

namespace SystemCallLearn.Reactor

open SystemCallLearn.Posix SystemCallLearn.Lib

/-- The action is no append to the output of `evp` and no `send` on `fd`. -/
def Harmless (evp : EventPtr) (fd : Int) (act : Action) : Prop :=
  act ≠ .append evp ∧ ∀ outbuffer call, act ≠ .send fd outbuffer call

/-- A successful `EPOLL_CTL_MOD` with `EPOLLOUT` has been issued since the last append and the last
    `send`. -/
def Rearmed (log : List Action) (evp : EventPtr) (fd : Int) : Prop :=
  ∃ later mask earlier, log = later ++ Action.mod fd mask true :: earlier ∧
    mask &&& epollOut ≠ 0 ∧ ∀ act ∈ later, Harmless evp fd act

/-- The mask has `EPOLLIN`, and where there is output it has `EPOLLOUT` and is re-armed. -/
def Server.ArmedAt (s : Server) (fd : Int) (evp : EventPtr) (ev : Event) : Prop :=
  ∃ e, s.interest fd = some e ∧ e.events &&& epollIn ≠ 0 ∧
    (ev.outbuffer ≠ [] → e.events &&& epollOut ≠ 0 ∧ Rearmed s.log evp fd)

/-- Every registered `Event` is armed. -/
def Server.Armed (s : Server) : Prop :=
  ∀ fd evp ev, s.events fd = some evp → s.heap evp = some ev → s.ArmedAt fd evp ev

theorem Rearmed.append {log acts : List Action} {evp : EventPtr} {fd : Int}
    (h : Rearmed log evp fd) (hacts : ∀ act ∈ acts, Harmless evp fd act) :
    Rearmed (acts ++ log) evp fd := by
  obtain ⟨later, mask, earlier, rfl, hmask, hlater⟩ := h
  refine ⟨acts ++ later, mask, earlier, by simp, hmask, ?_⟩
  intro act hact
  rcases List.mem_append.1 hact with hact | hact
  · exact hacts act hact
  · exact hlater act hact

section Armed

variable {s t : Server} {fd : Int} {evp : EventPtr} {ev : Event}

/-- **The frame rule.** An `Event` stays armed while its entry of the interest list is left alone
    and nothing is appended to its output or sent on its descriptor. -/
theorem Server.ArmedAt.frame (h : s.ArmedAt fd evp ev) (acts : List Action)
    (hi : t.interest fd = s.interest fd) (hlog : t.log = acts ++ s.log)
    (hacts : ∀ act ∈ acts, Harmless evp fd act) : t.ArmedAt fd evp ev := by
  obtain ⟨e, he, hin, hout⟩ := h
  refine ⟨e, hi.trans he, hin, ?_⟩
  intro hne
  obtain ⟨hmask, hre⟩ := hout hne
  exact ⟨hmask, hlog ▸ hre.append hacts⟩

theorem enableMask_in (write : Bool) : enableMask true write &&& epollIn ≠ 0 := by
  cases write <;> decide

theorem enableMask_out (read : Bool) : enableMask read true &&& epollOut ≠ 0 := by
  cases read <;> decide

theorem insertMask_in : (epollIn ||| epollEt) &&& epollIn ≠ 0 := by decide

/-! ## What each state does -/

theorem armed_errno (h : s.Armed) (e : Errno) : Server.Armed { s with errno := e } :=
  fun fd evp ev hevp hev => h fd evp ev hevp hev

theorem armed_empty (h : ∀ fd, s.events fd = none) : s.Armed := by
  intro fd evp ev hevp
  rw [h fd] at hevp
  cases hevp

theorem armed_new (hs : s.Inv) (h : s.Armed) : (s.new ev).1.Armed := by
  intro fd evp ev' hevp hev'
  obtain ⟨ev₀, hev₀, -⟩ := hs.stored fd evp hevp
  have hsame : (s.new ev).1.heap evp = s.heap evp := Function.update_of_ne (hs.ne_next hev₀) _ _
  rw [hsame] at hev'
  exact h fd evp ev' hevp hev'

theorem armed_inserted (h : s.Armed) (hev : s.heap evp = some ev) (hout : ev.outbuffer = [])
    (fd : Int) (add : Option Errno) :
    (s.inserted evp fd (epollIn ||| epollEt) add).Armed := by
  cases add with
  | some e => exact armed_errno h e
  | none =>
    intro fd' evp' ev' hevp' hev'
    by_cases hfd : fd' = fd
    · subst hfd
      obtain rfl : evp = evp' := by simpa [Server.inserted] using hevp'
      obtain rfl : ev = ev' := Option.some.inj (hev.symm.trans hev')
      exact ⟨_, Function.update_self _ _ _, insertMask_in, fun hne => absurd hout hne⟩
    · have hevents : s.events fd' = some evp' := by
        simpa [Server.inserted, Function.update_of_ne hfd] using hevp'
      exact (h fd' evp' ev' hevents hev').frame [] (Function.update_of_ne hfd _ _) rfl
        (by simp)

theorem armed_accepted (hs : s.Inv) (h : s.Armed) (fd : Int) (add : Option Errno) :
    (s.accepted fd add).Armed := by
  have ho : (s.openSock fd).Armed := h
  have hheap : ((s.openSock fd).new (connEvent fd (some s.this))).1.heap s.next =
      some (connEvent fd (some s.this)) := Function.update_self _ _ _
  exact armed_inserted (armed_new (inv_openSock hs fd) ho) hheap rfl fd add

/-- The action is harmless for every `Event` but the one at `evp` with descriptor `fd`. -/
def About (evp : EventPtr) (fd : Int) (act : Action) : Prop :=
  ∀ evp' fd', evp' ≠ evp → fd' ≠ fd → Harmless evp' fd' act

theorem about_append (evp : EventPtr) (fd : Int) : About evp fd (.append evp) :=
  fun _ _ hne _ => ⟨fun heq => hne (Action.append.inj heq).symm, fun _ _ heq => by cases heq⟩

theorem about_send (evp : EventPtr) (fd : Int) (outbuffer : Bytes) (call : SendCall) :
    About evp fd (.send fd outbuffer call) :=
  fun _ _ _ hne => ⟨fun heq => (by cases heq), fun _ _ heq => hne (Action.send.inj heq).1.symm⟩

theorem harmless_mod (evp : EventPtr) (fd fd' : Int) (mask : UInt32) (done : Bool) :
    Harmless evp fd (.mod fd' mask done) :=
  ⟨fun heq => (by cases heq), fun _ _ heq => by cases heq⟩

theorem harmless_delete (evp evp' : EventPtr) (fd : Int) : Harmless evp fd (.delete evp') :=
  ⟨fun heq => (by cases heq), fun _ _ heq => by cases heq⟩

/-- What happens at one `Event` leaves the others armed. -/
theorem armed_others (hs : s.Inv) (h : s.Armed) (hr : s.Registered evp ev) (acts : List Action)
    (hacts : ∀ act ∈ acts, About evp ev.sock act) (hlog : t.log = acts ++ s.log)
    (hevents : ∀ fd', fd' ≠ ev.sock → t.events fd' = s.events fd')
    (hinterest : ∀ fd', fd' ≠ ev.sock → t.interest fd' = s.interest fd')
    (hheap : ∀ evp', evp' ≠ evp → t.heap evp' = s.heap evp')
    (hown : ∀ ev', t.events ev.sock = some evp → t.heap evp = some ev' → t.ArmedAt ev.sock evp ev')
    (hkeep : ∀ evp', t.events ev.sock = some evp' → evp' = evp) : t.Armed := by
  intro fd' evp' ev' hevp' hev'
  by_cases hfd : fd' = ev.sock
  · subst hfd
    obtain rfl := hkeep evp' hevp'
    exact hown ev' hevp' hev'
  · rw [hevents fd' hfd] at hevp'
    have hpe : evp' ≠ evp := fun heq => hfd (hs.distinct _ _ _ hevp' (heq ▸ hr.stored))
    rw [hheap evp' hpe] at hev'
    exact (h fd' evp' ev' hevp' hev').frame acts (hinterest fd' hfd) hlog
      fun act hact => hacts act hact evp' fd' hpe hfd

/-- **The end of a callback.** A callback that changes the buffers of its `Event`, acting only on
    this `Event`, leaves everything armed if it then deletes the connection, or has no output left
    and asks for `EPOLLIN` or for nothing, or asks for both. -/
theorem armed_finished (hs : s.Inv) (h : s.Armed) (hr : s.Registered evp ev) {ev' : Event}
    (errno : Errno) {acts : List Action} (hacts : ∀ act ∈ acts, About evp ev.sock act) {next : Next}
    (hnext : next = .errer ∨
      ev'.outbuffer = [] ∧ (next = .nothing ∨ next = .enableRW true false) ∨
      next = .enableRW true true) :
    ((s.touched evp ev' errno acts).finished evp ev.sock none next).Armed := by
  obtain ⟨e, he, hin, -⟩ := h _ _ _ hr.stored hr.live
  rcases hnext with rfl | ⟨hempty, rfl | rfl⟩ | rfl
  · refine armed_others hs h hr (.delete evp :: acts) (?_) rfl
      (fun fd' hne => Function.update_of_ne hne _ _) (fun fd' hne => Function.update_of_ne hne _ _)
      (?_) (?_) ?_
    · intro act hact
      rcases List.mem_cons.1 hact with rfl | hact
      · exact fun evp' fd' _ _ => harmless_delete _ _ _
      · exact hacts act hact
    · intro evp' hne
      simp [Server.finished, Server.removed, Server.touched, Function.update_of_ne hne]
    · intro ev₀ hstored
      simp [Server.finished, Server.removed] at hstored
    · intro evp' hstored
      simp [Server.finished, Server.removed] at hstored
  · refine armed_others hs h hr acts hacts rfl (fun _ _ => rfl) (fun _ _ => rfl)
      (fun evp' hne => Function.update_of_ne hne _ _) (?_) ?_
    · intro ev₀ _ hev₀
      have hev : ev₀ = ev' := by
        simpa [Server.finished, Server.touched, eq_comm] using hev₀
      exact ⟨e, he, hin, fun hne => absurd hempty (hev ▸ hne)⟩
    · intro evp' hstored
      exact Option.some.inj (hstored.symm.trans hr.stored)
  all_goals
    refine armed_others hs h hr (.mod ev.sock _ true :: acts) (fun act hact => ?_) rfl
      (fun _ _ => rfl) (fun fd' hne => Function.update_of_ne hne _ _)
      (fun evp' hne => Function.update_of_ne hne _ _) (fun ev₀ _ hev₀ => ?_) fun evp' hstored => ?_
  · rcases List.mem_cons.1 hact with rfl | hact
    · exact fun evp' fd' _ _ => harmless_mod _ _ _ _ _
    · exact hacts act hact
  · have hev : ev₀ = ev' := by
      simpa [Server.finished, Server.modded, Server.touched, eq_comm] using hev₀
    exact ⟨_, Function.update_self _ _ _, enableMask_in _, fun hne => absurd hempty (hev ▸ hne)⟩
  · exact Option.some.inj (hstored.symm.trans hr.stored)
  · rcases List.mem_cons.1 hact with rfl | hact
    · exact fun evp' fd' _ _ => harmless_mod _ _ _ _ _
    · exact hacts act hact
  · exact ⟨_, Function.update_self _ _ _, enableMask_in _, fun _ =>
      ⟨enableMask_out _, [], _, _, rfl, enableMask_out _, by simp⟩⟩
  · exact Option.some.inj (hstored.symm.trans hr.stored)

/-! ## The callbacks -/

/-- `Recver` fails, or leaves no output and does nothing, or asks for both events. -/
theorem recver_next {errno : Errno} {frame : Frame} {inbuffer outbuffer : Bytes}
    {answers : List RecvResult} {r : RecverRun}
    (h : Reactor.recver errno frame inbuffer outbuffer answers = some r) :
    r.next = .errer ∨ r.outbuffer = [] ∧ r.next = .nothing ∨ r.next = .enableRW true true := by
  rcases recver_cases h with ⟨-, -, -, hnext⟩ | ⟨-, -, -, -, hnext⟩
  · by_cases hempty : r.outbuffer = []
    · exact .inr (.inl ⟨hempty, by simpa [hempty] using hnext⟩)
    · exact .inr (.inr (by simpa [hempty] using hnext))
  · exact .inl hnext

theorem senderElse_ret {errno : Errno} {outbuffer : Bytes} {total : Int} {call : SendCall}
    {r : SenderEnd} (h : senderElse errno outbuffer total call = some r) : r.ret ≠ 1 := by
  simp only [senderElse] at h
  split_ifs at h
  all_goals
    obtain rfl := Option.some.inj h
    simp

/-- The body returns 1 with the output cleared only. -/
theorem senderBody_ret {errno : Errno} {outbuffer : Bytes} {answer : SendResult} {r : SenderEnd}
    (h : senderBody errno outbuffer answer = .inl r) (hret : r.ret = 1) : r.outbuffer = [] := by
  cases answer with
  | ok curr =>
    simp only [senderBody] at h
    split_ifs at h
    · obtain rfl := Sum.inl.inj h
      rfl
    · split at h
      · rename_i r' helse
        obtain rfl := Sum.inl.inj h
        exact absurd hret (senderElse_ret helse)
      · cases h
  | err e =>
    simp only [senderBody] at h
    split at h
    · rename_i r' helse
      obtain rfl := Sum.inl.inj h
      exact absurd hret (senderElse_ret helse)
    · cases h

/-- `SenderCore` returns 1 with the output cleared only, whatever `send` answers. -/
theorem senderCore_ret {errno : Errno} {outbuffer : Bytes} {answers : List SendResult}
    {r : SenderEnd} (h : senderCore errno outbuffer answers = some r) (hret : r.ret = 1) :
    r.outbuffer = [] := by
  induction answers generalizing errno r with
  | nil => cases h
  | cons answer answers ih =>
    simp only [senderCore] at h
    cases hbody : senderBody errno outbuffer answer with
    | inl r' =>
      simp only [hbody, Option.some.injEq] at h
      subst h
      exact senderBody_ret hbody hret
    | inr x =>
      simp only [hbody, Option.map_eq_some_iff] at h
      obtain ⟨r', hr', rfl⟩ := h
      exact ih (r := r') hr' hret

/-- `Sender` fails, or leaves no output and asks for `EPOLLIN`, or asks for both events. -/
theorem senderCore_next {errno : Errno} {outbuffer : Bytes} {answers : List SendResult}
    {r : SenderEnd} (h : senderCore errno outbuffer answers = some r) :
    r.next = .errer ∨ r.outbuffer = [] ∧ r.next = .enableRW true false ∨
      r.next = .enableRW true true := by
  simp only [SenderEnd.next]
  split_ifs with h1 h0
  · exact .inr (.inl ⟨senderCore_ret h h1, rfl⟩)
  · exact .inr (.inr rfl)
  · exact .inl rfl

theorem armed_recver (hs : s.Inv) (h : s.Armed) (hr : s.Registered evp ev) (hconn : ev.IsConn)
    (hR : ev.R = some s.this) {a : Answers} (ha : a.mod = none) (ht : s.recver evp a = .ok t) :
    t.Armed := by
  obtain ⟨r, hcore, rfl⟩ := (server_recver_safe hs hr hconn hR a).ok ht
  rw [ha]
  refine armed_finished hs h hr r.errno (?_) ?_
  · intro act hact
    split_ifs at hact
    · cases hact
    · obtain rfl := List.mem_singleton.1 hact
      exact about_append _ _
  · rcases recver_next hcore with hnext | ⟨hempty, hnext⟩ | hnext
    · exact .inl hnext
    · exact .inr (.inl ⟨hempty, .inl hnext⟩)
    · exact .inr (.inr hnext)

theorem armed_sender (hs : s.Inv) (h : s.Armed) (hr : s.Registered evp ev) (hconn : ev.IsConn)
    (hR : ev.R = some s.this) {a : Answers} (ha : a.mod = none) (ht : s.sender evp a = .ok t) :
    t.Armed := by
  obtain ⟨r, hcore, rfl⟩ := (server_sender_safe hs hr hconn hR a).ok ht
  rw [ha]
  refine armed_finished hs h hr r.errno (?_) ?_
  · intro act hact
    obtain ⟨call, -, rfl⟩ := List.mem_map.1 (List.mem_reverse.1 hact)
    exact about_send _ _ _ _
  · rcases senderCore_next hcore with hnext | ⟨hempty, hnext⟩ | hnext
    · exact .inl hnext
    · exact .inr (.inl ⟨hempty, .inr hnext⟩)
    · exact .inr (.inr hnext)

theorem armed_accepter (hs : s.Inv) (h : s.Armed) (hr : s.Registered evp ev)
    (hR : ev.R = some s.this) {answers : List AcceptResult}
    (ht : s.accepter evp answers = .ok t) : t.Armed :=
  ((accepter_safe (I := Server.Armed) (fun _ e _ hI => armed_errno hI e)
    (fun _ fd add hs' hI _ _ => armed_accepted hs' hI fd add) hs h hr.live hR answers).ok ht).2

end Armed

/-! ## Runs -/

/-- `epoll_ctl` with `EPOLL_CTL_MOD` succeeds in the step. -/
def ModSucceeds : Input → Prop
  | .wait _ => True
  | .read a => a.mod = none
  | .write a => a.mod = none

section Run

variable {st st' : Loop}

theorem armed_step (hst : st.Inv) (h : st.srv.Armed) {i : Input} (hi : ModSucceeds i)
    (hstep : st.step i = .ok st') : st'.srv.Armed := by
  cases loop_moves hstep with
  | @failed e _ => exact armed_errno h e
  | reported => exact h
  | @read rev revs a t _ _ ht =>
    rcases readBlock_cases hst.srv rev a with hnone | ⟨evp, ev, hr, -, hR, -, hacc⟩ |
      ⟨evp, ev, hr, -, hR, hconn, hrec⟩
    · obtain rfl := Except.ok.inj (hnone.symm.trans ht)
      exact h
    · exact armed_accepter hst.srv h hr hR (hacc.symm.trans ht)
    · exact armed_recver hst.srv h hr hconn hR hi (hrec.symm.trans ht)
  | @write rev revs a t _ _ ht =>
    rcases writeBlock_cases hst.srv rev a with hnone | ⟨evp, ev, hr, -, hR, hconn, hsnd⟩
    · obtain rfl := Except.ok.inj (hnone.symm.trans ht)
      exact h
    · exact armed_sender hst.srv h hr hconn hR hi (hsnd.symm.trans ht)

/-- `main` registers the listening socket at most, for `EPOLLIN` and with nothing to send. -/
theorem armed_started (h : Started st) : st.srv.Armed := by
  obtain ⟨this, opened, flags, errno, argc, a, hmain⟩ := h
  obtain ⟨fd, epfd, -, hsrv, -⟩ := main_eq hmain
  obtain ⟨flags', errno', hstarted⟩ := started_eq (Server.boot this opened flags errno) fd epfd a
  rw [hsrv, hstarted]
  refine armed_inserted (armed_empty fun _ => rfl)
    (show _ = some (listenEvent fd (some this)) from ?_) rfl fd a.add
  simp [Server.new, Server.boot]

/-- **No response is stranded.** In every state of every run of the server in which the
    `EPOLL_CTL_MOD`s succeed, the mask of every registered descriptor has `EPOLLIN`; and if its
    `Event` has output, the mask has `EPOLLOUT` and an `EPOLL_CTL_MOD` with `EPOLLOUT` has been
    issued for it since the last append to the output and the last `send`. -/
theorem no_stranded_response (is : List Input) (h0 : Started st)
    (h : Run (Guarded (fun _ i => ModSucceeds i) Loop.Steps) st is st') (fd : Int) (evp : EventPtr)
    (hevp : st'.srv.events fd = some evp) :
    ∃ ev e, st'.srv.heap evp = some ev ∧ st'.srv.interest fd = some e ∧
      e.events &&& epollIn ≠ 0 ∧
      (ev.outbuffer ≠ [] → e.events &&& epollOut ≠ 0 ∧ Rearmed st'.srv.log evp fd) := by
  have hinv : st'.Inv ∧ st'.srv.Armed := by
    refine h.invariant (I := fun st => st.Inv ∧ st.srv.Armed) (?_)
      ⟨inv_started h0, armed_started h0⟩
    intro _ i _ hi hst
    exact ⟨(loop_step hi.1 i).ok hst.2, armed_step hi.1 hi.2 hst.1 hst.2⟩
  obtain ⟨ev, hev, -⟩ := hinv.1.srv.stored fd evp hevp
  obtain ⟨e, he⟩ := hinv.2 fd evp ev hevp hev
  exact ⟨ev, e, hev, he⟩

/-- A connection is accepted and sends a request. -/
def requestInputs : List Input :=
  [.wait (.ok [(3, epollIn)]),
   .read { Answers.none with accept := [.ok 5 none, .err .eagain] },
   .write Answers.none,
   .wait (.ok [(5, epollIn)]),
   .read { Answers.none with recv := [.ok [49, 43, 50, 88], .err .eagain] },
   .write Answers.none]

/-- The response to the request is waiting, and `EPOLLOUT` is on its way. -/
theorem no_stranded_response_waiting :
    ∃ st st' ev e, Started st ∧
      Run (Guarded (fun _ i => ModSucceeds i) Loop.Steps) st requestInputs st' ∧
      st'.srv.heap 1 = some ev ∧ ev.outbuffer = [49, 43, 50, 61, 51, 88] ∧
      st'.srv.interest 5 = some e ∧ e.events &&& epollOut ≠ 0 ∧ Rearmed st'.srv.log 1 5 := by
  obtain ⟨st, st', hmain, hrun, hp⟩ := exists_run .good requestInputs
    (p := fun st => decide (st.srv.events 5 = some 1 ∧
      (st.srv.heap 1).map Event.outbuffer = some [49, 43, 50, 61, 51, 88])) (by decide +kernel)
  obtain ⟨hevp, hout⟩ := of_decide_eq_true hp
  have h0 : Started st := ⟨_, _, _, _, _, _, hmain⟩
  have hrun' : Run (Guarded (fun _ i => ModSucceeds i) Loop.Steps) st requestInputs st' := by
    apply hrun.guarded
    intro i hi _
    simp only [requestInputs, List.mem_cons, List.not_mem_nil, or_false] at hi
    rcases hi with rfl | rfl | rfl | rfl | rfl | rfl
    all_goals trivial
  obtain ⟨ev, e, hev, he, -, harmed⟩ := no_stranded_response _ h0 hrun' 5 1 hevp
  have hev' : ev.outbuffer = [49, 43, 50, 61, 51, 88] := by simpa [hev] using hout
  obtain ⟨hmask, hre⟩ := harmed (by simp [hev'])
  exact ⟨st, st', ev, e, h0, hrun', hev, hev', he, hmask, hre⟩

end Run

end SystemCallLearn.Reactor
