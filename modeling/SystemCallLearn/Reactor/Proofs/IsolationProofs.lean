import SystemCallLearn.Reactor.Proofs.SoloProofs

/-!
# What one connection sees of the others

A connection that never reads an `errno` it has not set goes through its own steps (`Solo`) in every
run of the server, so what it ends with depends on what the run gives it and on nothing else. Where
it comes to read such an `errno`, the failure of another connection decides whether it stays.
-/

namespace SystemCallLearn.Reactor

open SystemCallLearn.Posix SystemCallLearn.Lib

/-! ## Runs -/

/-- The server is as `c` for the connection, and between the two blocks of an entry of it that has
    run `Recver`, `errno` is the one that `c` has left. -/
structure Follows (fd : Int) (evp : EventPtr) (st : Loop) (c : Solo) : Prop where
  mirrors : Mirrors fd evp st.srv c
  errno : ∀ events, st.reported .write fd evp = some events → convert events &&& epollIn ≠ 0 →
    st.srv.errno = c.errno

section Run

variable {st st' : Loop} {fd : Int} {evp : EventPtr} {c : Solo}

theorem reported_eq {rev : EpollEvent} {revs : List EpollEvent} {half : Half}
    (hrevs : st.revs = rev :: revs) (hhalf : st.half = half) :
    st.reported half fd evp =
      if rev.fd = fd ∧ st.srv.events fd = some evp then some rev.events else none := by
  simp [Loop.reported, hrevs, hhalf]

theorem reported_half {half : Half} (hhalf : st.half ≠ half) : st.reported half fd evp = none := by
  unfold Loop.reported
  cases st.revs with
  | nil => rfl
  | cons rev revs => exact if_neg fun h => hhalf h.1

/-- After the read block of an entry. -/
theorem Follows.read (hst : st.Inv) (h : Follows fd evp st c) {rev : EpollEvent}
    {revs : List EpollEvent} (hrevs : st.revs = rev :: revs) (hhalf : st.half = .read) {a : Answers}
    {t : Server} (ht : st.srv.readBlock rev a = .ok t) :
    Follows fd evp { st with srv := t, half := .write }
      ((st.given fd evp (.read a)).foldl Solo.step c) := by
  have hnext : ∀ u events, Loop.reported { st with srv := u, half := .write } .write fd evp =
      some events → events = rev.events ∧ rev.fd = fd ∧ u.events fd = some evp := by
    intro u events hevents
    have hlist : Loop.revs { st with srv := u, half := .write } = rev :: revs := hrevs
    rw [reported_eq hlist rfl] at hevents
    split_ifs at hevents with hown
    exact ⟨(Option.some.inj hevents).symm, hown⟩
  by_cases hown : rev.fd = fd ∧ st.srv.events fd = some evp
  · obtain ⟨b, hb⟩ := h.mirrors.held_of_stored hown.2
    obtain ⟨-, -, ⟨ev, hev, hconn, hsock, -⟩, -⟩ := h.mirrors.held b hb
    have hr : st.srv.Registered evp ev := ⟨hev, by rw [hsock]; exact hown.2⟩
    have hR := registered_R hst hr
    have hgiven : st.given fd evp (.read a) = [.read rev.events a.recv a.mod] := by
      rw [Loop.given, reported_eq hrevs hhalf, if_pos hown]
      rfl
    have hstep : Solo.step c (.read rev.events a.recv a.mod) =
        if convert rev.events &&& epollIn ≠ 0 then c.recver b a.recv a.mod else c := by
      simp only [Solo.step, hb]
    rw [hgiven, List.foldl_cons, List.foldl_nil, hstep]
    rw [h.mirrors.readBlock hb hown.1 a] at ht
    by_cases hin : convert rev.events &&& epollIn ≠ 0
    · rw [if_pos hin] at ht ⊢
      obtain ⟨hkept, herr⟩ := h.mirrors.recver hst.srv hb ht
      refine ⟨hkept, ?_⟩
      intro events hevents _
      obtain ⟨b', hb'⟩ := hkept.held_of_stored (hnext t events hevents).2.2
      exact herr (by simp [hb'])
    · rw [if_neg hin] at ht ⊢
      obtain rfl := Except.ok.inj ht
      refine ⟨h.mirrors, ?_⟩
      intro events hevents hin'
      obtain ⟨rfl, -⟩ := hnext _ events hevents
      exact absurd hin' hin
  · have hgiven : st.given fd evp (.read a) = [] := by
      rw [Loop.given, reported_eq hrevs hhalf, if_neg hown]
      rfl
    rw [hgiven, List.foldl_nil]
    have hkept := h.mirrors.readBlock_other hst.srv hown ht
    refine ⟨hkept, ?_⟩
    intro events hevents _
    obtain ⟨-, hfd, hstored⟩ := hnext t events hevents
    -- the connection would have been registered before
    obtain ⟨b, hb⟩ := hkept.held_of_stored hstored
    exact absurd ⟨hfd, (h.mirrors.held b hb).2.1⟩ hown

/-- After the write block of an entry. -/
theorem Follows.write (hst : st.Inv) (h : Follows fd evp st c) {rev : EpollEvent}
    {revs : List EpollEvent} (hrevs : st.revs = rev :: revs) (hhalf : st.half = .write)
    {a : Answers} {t : Server} (hok : Isolated fd evp st (.write a))
    (ht : st.srv.writeBlock rev a = .ok t) :
    Follows fd evp { st with srv := t, revs := revs, half := .read }
      ((st.given fd evp (.write a)).foldl Solo.step c) := by
  have hread : ∀ t, Loop.reported { st with srv := t, revs := revs, half := .read } .write fd evp =
      none := fun t => reported_half (by simp)
  by_cases hown : rev.fd = fd ∧ st.srv.events fd = some evp
  · have hreported : st.reported .write fd evp = some rev.events := by
      rw [reported_eq hrevs hhalf, if_pos hown]
    obtain ⟨b, hb⟩ := h.mirrors.held_of_stored hown.2
    obtain ⟨ev, hr, -, -, -, -, hout⟩ := h.mirrors.registered hst.srv hb
    have hgiven : st.given fd evp (.write a) = [.write rev.events a.send a.mod] := by
      rw [Loop.given, hreported]
      rfl
    have hstep : Solo.step c (.write rev.events a.send a.mod) =
        if convert rev.events &&& epollOut ≠ 0 then c.sender b a.send a.mod else c := by
      simp only [Solo.step, hb]
    rw [hgiven, List.foldl_cons, List.foldl_nil, hstep]
    rw [h.mirrors.writeBlock hb hown.1 a] at ht
    by_cases hwrite : convert rev.events &&& epollOut ≠ 0
    · rw [if_pos hwrite] at ht ⊢
      refine ⟨h.mirrors.sender hst.srv hb ?_ ht, fun _ hev => ?_⟩
      · -- `errno` is the connection's own, or it is not read
        rcases hok rev.events ev hreported hr.live hwrite with hin | hclean
        · rw [h.errno rev.events hreported hin]
        · rw [hout] at hclean
          exact senderCore_isolated hclean
      · rw [hread] at hev
        cases hev
    · rw [if_neg hwrite] at ht ⊢
      obtain rfl := Except.ok.inj ht
      refine ⟨h.mirrors, fun _ hev => ?_⟩
      rw [hread] at hev
      cases hev
  · have hgiven : st.given fd evp (.write a) = [] := by
      rw [Loop.given, reported_eq hrevs hhalf, if_neg hown]
      rfl
    rw [hgiven, List.foldl_nil]
    refine ⟨h.mirrors.writeBlock_other hst.srv hown ht, fun _ hev => ?_⟩
    rw [hread] at hev
    cases hev

/-- **The step lemma.** A step of the server that is a step for the connection is its step on its
    own, and any other leaves it alone. -/
theorem follows_step (hst : st.Inv) (h : Follows fd evp st c) {i : Input}
    (hok : Isolated fd evp st i) (hstep : st.step i = .ok st') :
    Follows fd evp st' ((st.given fd evp i).foldl Solo.step c) := by
  cases loop_moves hstep with
  | failed hrevs =>
    refine ⟨⟨h.mirrors.held, h.mirrors.gone, h.mirrors.offered⟩, ?_⟩
    intro events hevents
    simp [Loop.reported, hrevs] at hevents
  | reported =>
    refine ⟨h.mirrors, ?_⟩
    intro events hevents
    rw [reported_half (by simp)] at hevents
    cases hevents
  | read hrevs hhalf ht => exact h.read hst hrevs hhalf ht
  | write hrevs hhalf ht => exact h.write hst hrevs hhalf hok ht

/-- **The run lemma.** A connection of the server goes through its own steps. -/
theorem follows_run {is : List Input} (hst : st.Inv) (h : Follows fd evp st c)
    (hrun : Run (Guarded (Isolated fd evp) Loop.Steps) st is st') :
    st'.Inv ∧ Follows fd evp st' ((st.trace fd evp is).foldl Solo.step c) := by
  induction hrun with
  | nil => exact ⟨hst, h⟩
  | @snoc is t u i hrun hstep ih =>
    obtain ⟨hok, hstep⟩ := hstep
    obtain ⟨ht, hfollows⟩ := ih
    refine ⟨(loop_step ht i).ok hstep, ?_⟩
    have hu : t.step i = .ok u := hstep
    have hone : t.trace fd evp [i] = t.given fd evp i := by
      simp [Loop.trace, hu]
    rw [trace_append (hrun.mono fun _ _ _ h => h.2), List.foldl_append, hone]
    exact follows_step ht hfollows hok hstep

/-- The connection on its own, as it is in the server. -/
theorem exists_follows (hst : st.Inv) {ev : Event} (hr : st.srv.Registered evp ev)
    (hconn : ev.IsConn) : ∃ c, Follows ev.sock evp st c := by
  obtain ⟨e, he⟩ := hst.srv.interest hr
  refine ⟨{
    held := some { inbuffer := ev.inbuffer, outbuffer := ev.outbuffer, mask := e.events }
    offered := offers ev.sock evp st.srv.log
    errno := st.srv.errno }, ⟨?_, ?_, rfl⟩, fun _ _ _ => rfl⟩
  · intro b hb
    obtain rfl := Option.some.inj hb
    exact ⟨hst.srv.notMem_deletions hr.live, hr.stored, ⟨ev, hr.live, hconn, rfl, rfl, rfl⟩, e, he,
      rfl⟩
  · intro hnone
    cases hnone

/-- Another connection `fd'` is reported and its `recv` fails with `e`; then `fd` is reported with
    the events `m`. -/
def staleInputs (fd' fd : Int) (m : UInt32) (send : List SendResult) (e : Errno) : List Input :=
  [.wait (.ok [(fd', epollIn), (fd, m)]), .read { Answers.none with recv := [.err e] },
   .write Answers.none, .read Answers.none, .write { Answers.none with send := send }]

theorem recver_failed (errno : Errno) (frame : Frame) (inbuffer outbuffer : Bytes) {e : Errno}
    (he : e ≠ .eintr) :
    ∃ r, recver errno frame inbuffer outbuffer [.err e] = some r ∧ r.errno = e := by
  have hverdict : ∃ v, verdict [.err e] = some v := by
    unfold verdict
    rw [if_neg he]
    split_ifs
    · exact ⟨1, rfl⟩
    · exact ⟨-1, rfl⟩
  obtain ⟨v, hv⟩ := hverdict
  obtain ⟨r, hr⟩ := recver_returns errno frame inbuffer outbuffer hv
  refine ⟨r, hr, ?_⟩
  have hcore : ∃ ret, recverCore errno frame inbuffer [.err e] =
      some { ret := ret, inbuffer := inbuffer, frame := frame, errno := e } := by
    unfold recverCore
    rw [if_neg he]
    split_ifs
    · exact ⟨1, rfl⟩
    · exact ⟨-1, rfl⟩
  obtain ⟨ret, hcore⟩ := hcore
  unfold recver at hr
  rw [hcore] at hr
  simp only at hr
  split_ifs at hr
  · obtain rfl := Option.some.inj hr
    rfl
  · cases hsplit : splitSegment inbuffer [] sep with
    | none => simp [hsplit] at hr
    | some x =>
      simp only [hsplit, Option.some.injEq] at hr
      rw [← hr]

/-- `Recver` on a connection whose `recv` fails leaves that failure in `errno`. -/
theorem recver_leaves {s : Server} {ev : Event} (hs : s.Inv) (hr : s.Registered evp ev)
    (hconn : ev.IsConn) (hR : ev.R = some s.this) {e : Errno} (he : e ≠ .eintr) :
    ∃ t, s.recver evp { Answers.none with recv := [.err e] } = .ok t ∧ t.errno = e := by
  obtain ⟨r, hcore, herr⟩ := recver_failed s.errno Answers.none.frame ev.inbuffer ev.outbuffer he
  refine ⟨_, server_recver_eq hs hr hconn hR hcore, ?_⟩
  have htouched : (s.received evp ev r).errno = e := herr
  cases r.next with
  | nothing | errer => exact htouched
  | enableRW read write => exact htouched

/-- An entry of the connection for which `Recver` does not run, and whose `Sender` comes to read
    `errno`: it keeps the connection or deletes it. -/
theorem Mirrors.stale_blocks {t : Server} (ht : t.Inv) (h : Mirrors fd evp t c) {b : Held}
    (hb : c.held = some b) {m : UInt32} (hout : convert m &&& epollOut ≠ 0)
    (hin : convert m &&& epollIn = 0) {send : List SendResult}
    (hstale : ReadsStale b.outbuffer send) (he : t.errno ≠ .eintr) :
    t.readBlock { events := m, fd := fd } Answers.none = .ok t ∧
      ∃ u, t.writeBlock { events := m, fd := fd } { Answers.none with send := send } = .ok u ∧
        (u.events fd = some evp ↔ t.errno = .eagain ∨ t.errno = .ewouldblock) := by
  refine ⟨(h.readBlock hb rfl _).trans (if_neg (not_not.2 hin)), ?_⟩
  obtain ⟨ev, hr, hconn, hsock, hR, -, hsame⟩ := h.registered ht hb
  rw [← hsame] at hstale
  obtain ⟨r, hcore, hnext⟩ := senderCore_stale hstale he
  have hsender := server_sender_eq ht hr hconn hR (a := { Answers.none with send := send }) hcore
  refine ⟨_, (h.writeBlock hb rfl _).trans ((if_pos hout).trans hsender), ?_⟩
  rw [hnext]
  split_ifs with hagain
  · exact iff_of_true (hsock ▸ hr.stored) hagain
  · refine iff_of_false ?_ hagain
    show Function.update t.events ev.sock none fd ≠ some evp
    rw [hsock, Function.update_self]
    exact (Option.some_ne_none evp).symm

/-- An entry of another connection whose `recv` fails. -/
theorem Mirrors.failed_blocks {s : Server} (hs : s.Inv) (h : Mirrors fd evp s c) {b : Held}
    (hb : c.held = some b) {e : Errno} (he : e ≠ .eintr) :
    ∃ t, s.readBlock { events := epollIn, fd := fd } { Answers.none with recv := [.err e] } =
        .ok t ∧
      t.writeBlock { events := epollIn, fd := fd } Answers.none = .ok t ∧ t.errno = e := by
  obtain ⟨ev, hr, hconn, -, hR, -, -⟩ := h.registered hs hb
  obtain ⟨t, ht, herr⟩ := recver_leaves hs hr hconn hR he
  have hin : convert epollIn &&& epollIn ≠ 0 := by decide
  have hout : ¬ convert epollIn &&& epollOut ≠ 0 := by decide
  refine ⟨t, (h.readBlock hb rfl _).trans ((if_pos hin).trans ht), ?_, herr⟩
  unfold Server.writeBlock Server.writeCall
  rw [if_neg hout]
  rfl

/-- Two registered descriptors can be reported in one call. -/
theorem reports_pair {s : Server} (hs : s.Inv) {p : EventPtr} {ev ev' : Event}
    (hr : s.Registered evp ev) (hr' : s.Registered p ev') (hne : ev'.sock ≠ ev.sock)
    (m' m : UInt32) :
    s.Reports [(ev'.sock, m'), (ev.sock, m)] ∧
      s.entries [(ev'.sock, m'), (ev.sock, m)] =
        [{ events := m', fd := ev'.sock }, { events := m, fd := ev.sock }] := by
  obtain ⟨d, hd⟩ := hs.interest hr
  obtain ⟨d', hd'⟩ := hs.interest hr'
  refine ⟨⟨by simpa using hne, ?_, by simp [num]⟩, ?_⟩
  · intro r hrep
    simp only [List.mem_cons, List.not_mem_nil, or_false] at hrep
    rcases hrep with rfl | rfl
    · simp [hd']
    · simp [hd]
  · simp [Server.entries, hd, hd', hs.data _ _ hd, hs.data _ _ hd']

/-- A batch of two entries, of which the second is the connection's. -/
theorem run_pair {reports : List (Int × UInt32)} {rev' rev : EpollEvent}
    {a₁ a₂ a₃ a₄ : Answers} {s₁ s₂ s₃ s₄ : Server} (hrevs : st.revs = [])
    (hreports : st.srv.Reports reports) (hentries : st.srv.entries reports = [rev', rev])
    (h₁ : st.srv.readBlock rev' a₁ = .ok s₁) (h₂ : s₁.writeBlock rev' a₂ = .ok s₂)
    (h₃ : s₂.readBlock rev a₃ = .ok s₃) (h₄ : s₃.writeBlock rev a₄ = .ok s₄)
    (hother : rev'.fd ≠ rev.fd) (hread : s₂.events rev.fd = some evp)
    (hwrite : s₃.events rev.fd = some evp) :
    ∃ st', Run Loop.Steps st [.wait (.ok reports), .read a₁, .write a₂, .read a₃, .write a₄] st' ∧
      st'.srv = s₄ ∧
      st.trace rev.fd evp [.wait (.ok reports), .read a₁, .write a₂, .read a₃, .write a₄] =
        [.read rev.events a₃.recv a₃.mod, .write rev.events a₄.send a₄.mod] := by
  let batch : Loop := { srv := st.srv, revs := [rev', rev], half := .read, snap := st.srv.events }
  have k₀ : st.step (.wait (.ok reports)) = .ok batch := by
    simp only [Loop.step, if_pos hrevs, if_pos hreports, hentries]
    rfl
  have k₁ : batch.step (.read a₁) = .ok { batch with srv := s₁, half := .write } := by
    simp only [Loop.step, batch, h₁]
    rfl
  have k₂ : Loop.step { batch with srv := s₁, half := .write } (.write a₂) =
      .ok { batch with srv := s₂, revs := [rev] } := by
    simp only [Loop.step, batch, h₂]
    rfl
  have k₃ : Loop.step { batch with srv := s₂, revs := [rev] } (.read a₃) =
      .ok { batch with srv := s₃, revs := [rev], half := .write } := by
    simp only [Loop.step, batch, h₃]
    rfl
  have k₄ : Loop.step { batch with srv := s₃, revs := [rev], half := .write } (.write a₄) =
      .ok { batch with srv := s₄, revs := [] } := by
    simp only [Loop.step, batch, h₄]
    rfl
  refine ⟨{ batch with srv := s₄, revs := [] }, ?_, rfl, ?_⟩
  · have hfirst : Run Loop.Steps st _ _ := Run.single k₀
    exact (((hfirst.snoc k₁).snoc k₂).snoc k₃).snoc k₄
  · simp only [Loop.trace, k₀, k₁, k₂, k₃, k₄, Loop.given, Loop.reported]
    simp [batch, hother, hread, hwrite]

/-- **A stale `errno` decides.** With the `errno` that the other connection has left, `Sender` keeps
    the connection or deletes it. -/
theorem exists_stale_run (hst : st.Inv) {ev : Event} (hr : st.srv.Registered evp ev)
    (hconn : ev.IsConn) {p : EventPtr} {ev' : Event} (hr' : st.srv.Registered p ev')
    (hconn' : ev'.IsConn) (hne : p ≠ evp) (hrevs : st.revs = []) {m : UInt32}
    (hout : convert m &&& epollOut ≠ 0) (hin : convert m &&& epollIn = 0) {send : List SendResult}
    (hstale : ReadsStale ev.outbuffer send) {e : Errno} (he : e ≠ .eintr) :
    ∃ st', Run Loop.Steps st (staleInputs ev'.sock ev.sock m send e) st' ∧
      st.trace ev.sock evp (staleInputs ev'.sock ev.sock m send e) =
        [.read m [] none, .write m send none] ∧
      (st'.srv.events ev.sock = some evp ↔ e = .eagain ∨ e = .ewouldblock) := by
  obtain ⟨c, hc⟩ := exists_follows hst hr hconn
  obtain ⟨c', hc'⟩ := exists_follows hst hr' hconn'
  obtain ⟨b, hb⟩ := hc.mirrors.held_of_stored hr.stored
  obtain ⟨b', hb'⟩ := hc'.mirrors.held_of_stored hr'.stored
  have hfd : ev'.sock ≠ ev.sock := hc.mirrors.sock_ne hr' hne hb
  obtain ⟨hreports, hentries⟩ := reports_pair hst.srv hr hr' hfd epollIn m
  -- the other connection fails, and this one finds its `errno`
  obtain ⟨t, hread', hwrite', herr⟩ := hc'.mirrors.failed_blocks hst.srv hb' he
  have hkept := hc.mirrors.readBlock_other hst.srv (fun h => hfd h.1) hread'
  have ht : t.Inv := ((readBlock_safe hst.srv _).ok hread').1
  have hsame : ev.outbuffer = b.outbuffer := by
    obtain ⟨ev₀, hr₀, -, -, -, -, hsame⟩ := hc.mirrors.registered hst.srv hb
    obtain rfl : ev = ev₀ := Option.some.inj (hr.live.symm.trans hr₀.live)
    exact hsame
  obtain ⟨hread, u, hwrite, hend⟩ := hkept.stale_blocks ht hb hout hin (hsame ▸ hstale)
    (herr ▸ he)
  have hstored : t.events ev.sock = some evp := (hkept.held b hb).2.1
  obtain ⟨st', hrun, rfl, htrace⟩ :=
    run_pair hrevs hreports hentries hread' hwrite' hread hwrite hfd hstored hstored
  exact ⟨st', hrun, htrace, herr ▸ hend⟩

/-- **Connections do not influence each other, except through a stale `errno`.** From every state of
    every run of the server, two runs that give a registered connection the same, and in which it
    never reads an `errno` that it has not set, end with the same view of it, whatever they do to
    the rest of the process. And where it comes to read such an `errno`, with another connection in
    the process, two runs that give it the same end with different views of it. -/
theorem connections_isolated (st st' : Loop) (is : List Input) (h0 : Started st)
    (h : Run Loop.Steps st is st') (evp : EventPtr) (ev : Event) (hr : st'.srv.Registered evp ev)
    (hconn : ev.IsConn) :
    (∀ is₁ is₂ st₁ st₂, Run (Guarded (Isolated ev.sock evp) Loop.Steps) st' is₁ st₁ →
      Run (Guarded (Isolated ev.sock evp) Loop.Steps) st' is₂ st₂ →
      st'.trace ev.sock evp is₁ = st'.trace ev.sock evp is₂ →
      st₁.srv.view ev.sock evp = st₂.srv.view ev.sock evp) ∧
    ∀ p ev' m send, st'.revs = [] → st'.srv.Registered p ev' → ev'.IsConn → p ≠ evp →
      convert m &&& epollOut ≠ 0 → convert m &&& epollIn = 0 → ReadsStale ev.outbuffer send →
      ∃ is₁ is₂ st₁ st₂, Run Loop.Steps st' is₁ st₁ ∧ Run Loop.Steps st' is₂ st₂ ∧
        st'.trace ev.sock evp is₁ = st'.trace ev.sock evp is₂ ∧
        st₁.srv.view ev.sock evp ≠ st₂.srv.view ev.sock evp := by
  have hst := loop_run h0 h
  constructor
  · intro is₁ is₂ st₁ st₂ h₁ h₂ htrace
    obtain ⟨c, hc⟩ := exists_follows hst hr hconn
    obtain ⟨hinv₁, hend₁⟩ := follows_run hst hc h₁
    obtain ⟨hinv₂, hend₂⟩ := follows_run hst hc h₂
    rw [hend₁.mirrors.view hinv₁.srv, hend₂.mirrors.view hinv₂.srv, htrace]
  · intro p ev' m send hrevs hr' hconn' hne hout hin hstale
    obtain ⟨st₁, h₁, htrace₁, hend₁⟩ := exists_stale_run hst hr hconn hr' hconn' hne hrevs hout hin
      hstale (e := .eagain) (by decide)
    obtain ⟨st₂, h₂, htrace₂, hend₂⟩ := exists_stale_run hst hr hconn hr' hconn' hne hrevs hout hin
      hstale (e := .other 104) (by decide)
    refine ⟨_, _, st₁, st₂, h₁, h₂, htrace₁.trans htrace₂.symm, ?_⟩
    intro hview
    have hkept : st₁.srv.events ev.sock = some evp := hend₁.2 (.inl rfl)
    have hlost : st₂.srv.events ev.sock ≠ some evp := fun h => absurd (hend₂.1 h) (by decide)
    have hreg := congrArg ConnView.registered hview
    simp [Server.view, hkept, hlost] at hreg

/-- Connections 5 and 6 are accepted. An error is reported on 5, whose `recv` finds nothing and
    whose `send` of nothing returns 0: both events are asked for. -/
def errorInputs : List Input :=
  [.wait (.ok [(3, epollIn)]),
   .read { Answers.none with accept := [.ok 5 none, .ok 6 none, .err .eagain] },
   .write Answers.none,
   .wait (.ok [(5, epollErr)]),
   .read { Answers.none with recv := [.err .eagain] },
   .write { Answers.none with send := [.ok 0] }]

/-- A request comes on 5 and is answered. -/
def requestOnly : List Input :=
  [.wait (.ok [(5, epollIn ||| epollOut)]),
   .read { Answers.none with recv := [.ok [49, 43, 50, 88], .err .eagain] },
   .write { Answers.none with send := [.ok 6] }]

/-- The same, after 6 has failed in the same batch. -/
def requestBehind : List Input :=
  [.wait (.ok [(6, epollIn), (5, epollIn ||| epollOut)]),
   .read { Answers.none with recv := [.err (.other 104)] },
   .write Answers.none,
   .read { Answers.none with recv := [.ok [49, 43, 50, 88], .err .eagain] },
   .write { Answers.none with send := [.ok 6] }]

/-- Two runs computed from the state after `errorInputs`, which give the connection 5 the same. -/
theorem exists_two_runs (is₁ is₂ : List Input) {q : Loop → Loop → Bool}
    (h : ((Server.fresh.main 2 .good).toOption.any fun st =>
      (exec (fun st i => (st.step i).toOption) st errorInputs).any fun st =>
        decide (st.srv.events 5 = some 1 ∧
          (st.srv.heap 1).map Event.recver = some (some .recver) ∧
          st.trace 5 1 is₁ = st.trace 5 1 is₂) &&
        (exec (fun st i => (st.step i).toOption) st is₁).any fun u =>
          (exec (fun st i => (st.step i).toOption) st is₂).any fun v => q u v) = true) :
    ∃ st st' ev st₁ st₂, Started st ∧ Run Loop.Steps st errorInputs st' ∧
      st'.srv.Registered 1 ev ∧ ev.IsConn ∧ ev.sock = 5 ∧ Run Loop.Steps st' is₁ st₁ ∧
      Run Loop.Steps st' is₂ st₂ ∧ st'.trace 5 1 is₁ = st'.trace 5 1 is₂ ∧ q st₁ st₂ = true := by
  obtain ⟨st, st', hmain, hrun, hp⟩ := exists_run .good errorInputs h
  obtain ⟨hhead, hruns⟩ := Bool.and_eq_true_iff.1 hp
  obtain ⟨hstored, hrecver, htrace⟩ := of_decide_eq_true hhead
  obtain ⟨st₁, h₁, hruns⟩ := (Option.any_eq_true ..).1 hruns
  obtain ⟨st₂, h₂, hq⟩ := (Option.any_eq_true ..).1 hruns
  have h0 : Started st := ⟨_, _, _, _, _, _, hmain⟩
  have hinv := (loop_run h0 hrun).srv
  obtain ⟨ev, hr, hsock, -⟩ := hinv.registered hstored
  have hconn : ev.IsConn := by
    apply isConn_of_recver hinv hr.live
    simpa [hr.live] using hrecver
  exact ⟨st, st', ev, st₁, st₂, h0, hrun, hr, hconn, hsock, exec_ok h₁, exec_ok h₂, htrace,
    hq⟩

/-- The answer to the request is the same, whether or not 6 has failed before. -/
theorem connections_isolated_request :
    ∃ st st' st₁ st₂, Started st ∧ Run Loop.Steps st errorInputs st' ∧
      Run Loop.Steps st' requestOnly st₁ ∧ Run Loop.Steps st' requestBehind st₂ ∧
      (st₁.srv.events 6 = some 2 ∧ st₂.srv.events 6 = none) ∧
      st₁.srv.view 5 1 = st₂.srv.view 5 1 := by
  obtain ⟨st, st', ev, st₁, st₂, h0, hrun, hr, hconn, hsock, h₁, h₂, htrace, hq⟩ :=
    exists_two_runs requestOnly requestBehind
      (q := fun u v => decide (u.srv.events 6 = some 2 ∧ v.srv.events 6 = none)) (by decide +kernel)
  have hclean : ∀ is : List Input, (∀ i ∈ is, ∀ a, i = .write a → a.send = [] ∨ a.send = [.ok 6]) →
      ∀ i ∈ is, ∀ s, Isolated 5 1 s i := by
    intro is his i hi s
    cases i with
    | wait answer => trivial
    | read a => trivial
    | write a =>
      intro _ _ _ _ _
      refine .inr ?_
      rcases his _ hi a rfl with hsend | hsend
      · rw [hsend]
        exact id
      · rw [hsend]
        simp [ReadsStale]
  have h₁' := h₁.guarded (hclean requestOnly (by simp [requestOnly, Answers.none]))
  have h₂' := h₂.guarded (hclean requestBehind (by simp [requestBehind, Answers.none]))
  obtain ⟨hview, -⟩ := connections_isolated st st' _ h0 hrun 1 ev hr hconn
  rw [hsock] at hview
  exact ⟨st, st', st₁, st₂, h0, hrun, h₁, h₂, of_decide_eq_true hq,
    hview _ _ _ _ h₁' h₂' htrace⟩

/-- **A failure of one connection deletes another.** 5 has nothing to send and is reported writable:
    its `send` returns 0. If the `recv` of 6 has failed with `EAGAIN` before, 5 stays; if it has
    failed with `ECONNRESET`, 5 is deleted. -/
theorem connection_deleted_by_another :
    ∃ st st' ev st₁ st₂, Started st ∧ Run Loop.Steps st errorInputs st' ∧
      st'.srv.Registered 1 ev ∧ ev.IsConn ∧ ev.sock = 5 ∧
      Run Loop.Steps st' (staleInputs 6 5 epollOut [.ok 0] .eagain) st₁ ∧
      Run Loop.Steps st' (staleInputs 6 5 epollOut [.ok 0] (.other 104)) st₂ ∧
      st'.trace 5 1 (staleInputs 6 5 epollOut [.ok 0] .eagain) =
        st'.trace 5 1 (staleInputs 6 5 epollOut [.ok 0] (.other 104)) ∧
      (st₁.srv.view 5 1).registered = true ∧ (st₂.srv.view 5 1).registered = false := by
  obtain ⟨st, st', ev, st₁, st₂, h0, hrun, hr, hconn, hsock, h₁, h₂, htrace, hq⟩ :=
    exists_two_runs (staleInputs 6 5 epollOut [.ok 0] .eagain)
      (staleInputs 6 5 epollOut [.ok 0] (.other 104))
      (q := fun u v => (u.srv.view 5 1).registered && !(v.srv.view 5 1).registered)
      (by decide +kernel)
  obtain ⟨hkept, hlost⟩ := Bool.and_eq_true_iff.1 hq
  rw [Bool.not_eq_true'] at hlost
  exact ⟨st, st', ev, st₁, st₂, h0, hrun, hr, hconn, hsock, h₁, h₂, htrace, hkept, hlost⟩

end Run

end SystemCallLearn.Reactor
