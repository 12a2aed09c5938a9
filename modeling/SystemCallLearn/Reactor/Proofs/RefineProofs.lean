import SystemCallLearn.Reactor.Proofs.DispatchProofs
import SystemCallLearn.Reactor.Connection
import SystemCallLearn.Lib.Trace

/-!
# A connection of the server is a connection

The buffers of an `Event` in a run of the server go through the steps of `Conn`, whatever happens to
the other descriptors in between. The steps are the calls that the run makes on the `Event`
(`Loop.calls`), so what is proved of the runs of a connection on its own holds of every connection
of the server, for what its own calls have received and sent.
-/

namespace SystemCallLearn.Reactor

open SystemCallLearn.Posix SystemCallLearn.Lib

/-! ## The calls on one `Event` -/

/-- A call of a handler of a connection, with the output buffer that it finds. -/
structure HandlerCall where
  outbuffer : Bytes
  op : ConnOp

/-- A connection on its own makes the call. -/
def Conn.Makes (c : Conn) (x : HandlerCall) (d : Conn) : Prop :=
  x.outbuffer = c.outbuffer ∧ c.step x.op = some d

/-- The call `op` made on the `Event` at `p`, if `p` is the `Event` in question. -/
def Server.madeOn (s : Server) (evp p : EventPtr) (op : ConnOp) : List HandlerCall :=
  match s.heap p with
  | none => []
  | some ev => if p = evp then [{ outbuffer := ev.outbuffer, op := op }] else []

/-- What the read block of an entry calls on the `Event` at `evp`. -/
def Server.readOn (s : Server) (evp : EventPtr) (rev : EpollEvent) (a : Answers) :
    List HandlerCall :=
  match s.readCall rev with
  | .ok (some (.recver, p)) => s.madeOn evp p (.recver s.errno a.frame a.recv)
  | _ => []

/-- What the write block of an entry calls on the `Event` at `evp`. -/
def Server.writeOn (s : Server) (evp : EventPtr) (rev : EpollEvent) (a : Answers) :
    List HandlerCall :=
  match s.writeCall rev with
  | .ok (some (.sender, p)) => s.madeOn evp p (.sender s.errno a.send)
  | _ => []

/-- What a step of the loop calls on the `Event` at `evp`. -/
def Loop.callsOn (evp : EventPtr) (st : Loop) (i : Input) : List HandlerCall :=
  match i, st.revs with
  | .read a, rev :: _ => st.srv.readOn evp rev a
  | .write a, rev :: _ => st.srv.writeOn evp rev a
  | _, _ => []

/-- What a run calls on the `Event` at `evp`, in order. -/
def Loop.calls (evp : EventPtr) (st : Loop) (is : List Input) : List HandlerCall :=
  emitted (fun st i => (st.step i).toOption) (Loop.callsOn evp) st is

/-! ## The connection of an `Event` -/

/-- `c` is the connection of the `Event` at `evp`: new until the `Event` is allocated, with its
    buffers while it lives, and closed once it is deleted. -/
structure Tracks (evp : EventPtr) (s : Server) (c : Conn) : Prop where
  before : s.next ≤ evp → c = Conn.new
  live : ∀ ev, s.heap evp = some ev → ev.IsConn →
    c.closed = false ∧ c.inbuffer = ev.inbuffer ∧ c.outbuffer = ev.outbuffer
  after : evp < s.next → s.heap evp = none → c.closed = true

section Tracks

variable {s t : Server} {evp p : EventPtr} {ev : Event} {c : Conn}

/-- Nothing happens to the `Event`. -/
theorem Tracks.frame (h : Tracks evp s c) (hheap : t.heap evp = s.heap evp)
    (hnext : t.next = s.next) : Tracks evp t c :=
  ⟨fun hle => h.before (hnext ▸ hle), fun ev hev => h.live ev (hheap ▸ hev),
    fun hlt hnone => h.after (hnext ▸ hlt) (hheap ▸ hnone)⟩

/-- A connection is accepted: it starts new. -/
theorem Tracks.accepted (h : Tracks evp s c) (fd : Int) (add : Option Errno) :
    Tracks evp (s.accepted fd add) c := by
  have hheap := accepted_heap_eq s fd add
  have hnext := accepted_next s fd add
  refine ⟨?_, ?_, ?_⟩
  · intro hle
    rw [hnext] at hle
    exact h.before (Nat.le_of_succ_le hle)
  · intro ev hev hconn
    rw [hheap, Function.update_apply] at hev
    split_ifs at hev with heq
    · obtain rfl := Option.some.inj hev
      rw [h.before (Nat.le_of_eq heq.symm)]
      exact ⟨rfl, rfl, rfl⟩
    · exact h.live ev hev hconn
  · intro hlt hnone
    rw [hheap, Function.update_apply] at hnone
    split_ifs at hnone with heq
    rw [hnext] at hlt
    exact h.after (Nat.lt_of_le_of_ne (Nat.le_of_lt_succ hlt) heq) hnone

theorem finished_next (s : Server) (p : EventPtr) (fd : Int) (mod : Option Errno) (next : Next) :
    (s.finished p fd mod next).next = s.next := by
  cases next with
  | enableRW read write => cases mod <;> rfl
  | _ => rfl

/-- The end of a callback deletes its own `Event` or none. -/
theorem finished_heap (s : Server) (p : EventPtr) (fd : Int) (mod : Option Errno) (next : Next) :
    (s.finished p fd mod next).heap =
      if next = .errer then Function.update s.heap p none else s.heap := by
  cases next with
  | enableRW read write => cases mod <;> rfl
  | nothing => rfl
  | errer => rfl

theorem Tracks.other (h : Tracks evp s c) (hne : evp ≠ p) (ev : Event) (errno : Errno)
    (acts : List Action) (fd : Int) (mod : Option Errno) (next : Next) :
    Tracks evp ((s.touched p ev errno acts).finished p fd mod next) c := by
  refine h.frame ?_ (finished_next _ _ _ _ _)
  have htouched : (s.touched p ev errno acts).heap evp = s.heap evp := Function.update_of_ne hne _ _
  rw [finished_heap]
  split_ifs
  · rw [Function.update_of_ne hne, htouched]
  · exact htouched

/-- A callback of the `Event` itself: the connection has the new buffers, and is closed if the
    `Event` is deleted. -/
theorem Tracks.own (hs : s.Inv) (hr : s.Registered evp ev) {ev' : Event} {d : Conn} (errno : Errno)
    (acts : List Action) (fd : Int) (mod : Option Errno) {next : Next}
    (hin : d.inbuffer = ev'.inbuffer) (hout : d.outbuffer = ev'.outbuffer)
    (hclosed : d.closed = decide (next = .errer)) :
    Tracks evp ((s.touched evp ev' errno acts).finished evp fd mod next) d := by
  have hheap : ((s.touched evp ev' errno acts).finished evp fd mod next).heap evp =
      if next = .errer then none else some ev' := by
    rw [finished_heap]
    split_ifs
    · exact Function.update_self _ _ _
    · exact Function.update_self _ _ _
  refine ⟨?_, ?_, ?_⟩
  · intro hle
    rw [finished_next] at hle
    exact absurd (hs.lt_next hr.live) (Nat.not_lt_of_le hle)
  · intro ev₀ hev₀ _
    rw [hheap] at hev₀
    split_ifs at hev₀ with herr
    obtain rfl := Option.some.inj hev₀
    exact ⟨by simp [hclosed, herr], hin, hout⟩
  · intro _ hnone
    rw [hheap] at hnone
    split_ifs at hnone with herr
    simp [hclosed, herr]

/-! ## The callbacks -/

theorem madeOn_eq (h : s.heap p = some ev) (evp : EventPtr) (op : ConnOp) :
    s.madeOn evp p op = if p = evp then [{ outbuffer := ev.outbuffer, op := op }] else [] := by
  unfold Server.madeOn
  rw [h]

/-- `Recver` on an `Event` is a call of `Recver` on its connection, and none on another. -/
theorem tracks_recver (hs : s.Inv) (h : Tracks evp s c) (hr : s.Registered p ev)
    (hconn : ev.IsConn) (hR : ev.R = some s.this) {a : Answers} (ht : s.recver p a = .ok t) :
    ∃ d, Run Conn.Makes c (s.madeOn evp p (.recver s.errno a.frame a.recv)) d ∧
      Tracks evp t d := by
  obtain ⟨r, hcore, rfl⟩ := (server_recver_safe hs hr hconn hR a).ok ht
  rw [madeOn_eq hr.live]
  by_cases hp : p = evp
  · subst hp
    obtain ⟨hopen, hin, hout⟩ := h.live ev hr.live hconn
    have hstep : ∃ d, c.step (.recver s.errno a.frame a.recv) = some d ∧
        d.inbuffer = r.inbuffer ∧ d.outbuffer = r.outbuffer ∧
        d.closed = decide (r.next = .errer) := by
      simp [Conn.step, hopen, hin, hout, hcore]
    obtain ⟨d, hd, hin', hout', hclosed⟩ := hstep
    rw [if_pos rfl]
    exact ⟨d, Run.single ⟨hout.symm, hd⟩,
      Tracks.own hs hr r.errno _ ev.sock a.mod hin' hout' hclosed⟩
  · rw [if_neg hp]
    exact ⟨c, Run.nil, h.other (Ne.symm hp) _ _ _ _ _ _⟩

theorem tracks_sender (hs : s.Inv) (h : Tracks evp s c) (hr : s.Registered p ev)
    (hconn : ev.IsConn) (hR : ev.R = some s.this) {a : Answers} (ht : s.sender p a = .ok t) :
    ∃ d, Run Conn.Makes c (s.madeOn evp p (.sender s.errno a.send)) d ∧ Tracks evp t d := by
  obtain ⟨r, hcore, rfl⟩ := (server_sender_safe hs hr hconn hR a).ok ht
  rw [madeOn_eq hr.live]
  by_cases hp : p = evp
  · subst hp
    obtain ⟨hopen, hin, hout⟩ := h.live ev hr.live hconn
    have hstep : ∃ d, c.step (.sender s.errno a.send) = some d ∧
        d.inbuffer = ev.inbuffer ∧ d.outbuffer = r.outbuffer ∧
        d.closed = decide (r.next = .errer) := by
      simp [Conn.step, hopen, hin, hout, hcore]
    obtain ⟨d, hd, hin', hout', hclosed⟩ := hstep
    rw [if_pos rfl]
    exact ⟨d, Run.single ⟨hout.symm, hd⟩,
      Tracks.own hs hr r.errno _ ev.sock a.mod hin' hout' hclosed⟩
  · rw [if_neg hp]
    exact ⟨c, Run.nil, h.other (Ne.symm hp) _ _ _ _ _ _⟩

/-- The read block, with what it calls on the `Event` at `evp`. -/
theorem tracks_readBlock (hs : s.Inv) (h : Tracks evp s c) {rev : EpollEvent} {a : Answers}
    (ht : s.readBlock rev a = .ok t) :
    ∃ d, Run Conn.Makes c (s.readOn evp rev a) d ∧ Tracks evp t d := by
  obtain ⟨call, hcall, hfound⟩ := readCall_eq hs rev
  simp only [Server.readBlock, hcall, Exec.ok_bind] at ht
  simp only [Server.readOn, hcall]
  cases call with
  | none =>
    obtain rfl := Except.ok.inj ht
    exact ⟨c, Run.nil, h⟩
  | some x =>
    obtain ⟨f, p⟩ := x
    obtain ⟨-, ev, hr, -, hR, hf⟩ := hfound f p rfl
    cases f with
    | accepter =>
      have hrule := accepter_safe (I := fun s => Tracks evp s c)
        (fun _ _ _ hI => hI.frame rfl rfl) (fun _ fd add _ hI _ _ => hI.accepted fd add) hs h
        hr.live hR a.accept
      exact ⟨c, Run.nil, (hrule.ok ht).2⟩
    | recver => exact tracks_recver hs h hr (isConn_of_recver hs hr.live hf) hR ht

/-- The write block, with what it calls on the `Event` at `evp`. -/
theorem tracks_writeBlock (hs : s.Inv) (h : Tracks evp s c) {rev : EpollEvent} {a : Answers}
    (ht : s.writeBlock rev a = .ok t) :
    ∃ d, Run Conn.Makes c (s.writeOn evp rev a) d ∧ Tracks evp t d := by
  obtain ⟨call, hcall, hfound⟩ := writeCall_eq hs rev
  simp only [Server.writeBlock, hcall, Exec.ok_bind] at ht
  simp only [Server.writeOn, hcall]
  cases call with
  | none =>
    obtain rfl := Except.ok.inj ht
    exact ⟨c, Run.nil, h⟩
  | some x =>
    obtain ⟨f, p⟩ := x
    obtain ⟨-, ev, hr, -, hR, hf⟩ := hfound f p rfl
    exact tracks_sender hs h hr (isConn_of_sender hs hr.live hf) hR ht

end Tracks

/-! ## Runs -/

section Run

variable {st st' : Loop} {evp : EventPtr} {c : Conn}

/-- **The step lemma.** What a step of the server calls on the `Event` is a run of its
    connection. -/
theorem tracks_step (hst : st.Inv) (h : Tracks evp st.srv c) {i : Input}
    (hstep : st.step i = .ok st') :
    ∃ d, Run Conn.Makes c (st.callsOn evp i) d ∧ Tracks evp st'.srv d := by
  cases loop_moves hstep with
  | failed => exact ⟨c, Run.nil, h.frame rfl rfl⟩
  | reported => exact ⟨c, Run.nil, h⟩
  | @read rev revs a t hrevs _ ht =>
    simp only [Loop.callsOn, hrevs]
    exact tracks_readBlock hst.srv h ht
  | @write rev revs a t hrevs _ ht =>
    simp only [Loop.callsOn, hrevs]
    exact tracks_writeBlock hst.srv h ht

/-- When `main` enters its loop there is no connection yet. -/
theorem tracks_started (h0 : Started st) : Tracks evp st.srv Conn.new := by
  obtain ⟨this, opened, flags, errno, argc, a, hmain⟩ := h0
  obtain ⟨fd, epfd, -, hsrv, -⟩ := main_eq hmain
  obtain ⟨flags', errno', hstarted⟩ := started_eq (Server.boot this opened flags errno) fd epfd a
  rw [hstarted] at hsrv
  have hheap : st.srv.heap =
      Function.update (fun _ => none) 0 (some (listenEvent fd (some this))) := by
    rw [hsrv]
    cases a.add <;> rfl
  have hnext : st.srv.next = 1 := by
    rw [hsrv]
    cases a.add <;> rfl
  refine ⟨fun _ => rfl, ?_, ?_⟩
  · intro ev hev hconn
    rw [hheap, Function.update_apply] at hev
    split_ifs at hev
    obtain rfl := Option.some.inj hev
    cases hconn.1
  · intro hlt hnone
    rw [hnext] at hlt
    obtain rfl : evp = 0 := Nat.lt_one_iff.1 hlt
    rw [hheap, Function.update_self] at hnone
    cases hnone

theorem loop_next (s : Loop) (i : Input) (t : Loop) (h : Loop.Steps s i t) :
    (s.step i).toOption = some t := by
  have hok : s.step i = .ok t := h
  rw [hok]
  rfl

/-- **The server refines the connection.** In every run of the server the calls made on the `Event`
    at `evp` are a run of a connection: its buffers are those of the `Event` while it lives, and the
    connection is closed once it is deleted. -/
theorem server_refines_conn {is : List Input} (h0 : Started st) (h : Run Loop.Steps st is st')
    (evp : EventPtr) :
    ∃ c, Run Conn.Makes Conn.new (st.calls evp is) c ∧ Tracks evp st'.srv c := by
  obtain ⟨c, hrun, -, htracks⟩ :=
    h.project (S := fun st c => st.Inv ∧ Tracks evp st.srv c) loop_next
      (fun u i v c hS hst => by
        obtain ⟨d, hrun, htracks⟩ := tracks_step hS.1 hS.2 hst
        exact ⟨d, hrun, (loop_step hS.1 i).ok hst, htracks⟩)
      ⟨inv_started h0, tracks_started h0⟩
  exact ⟨c, hrun, htracks⟩

end Run

end SystemCallLearn.Reactor
