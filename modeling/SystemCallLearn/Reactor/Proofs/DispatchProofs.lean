import SystemCallLearn.Reactor.Proofs.ReactorProofs
import SystemCallLearn.Lib.Lts

/-!
# Every run of `Dispatcher` keeps the registry and calls live callbacks

The specifications of the callbacks say that they do not fault on a registered `Event` and in which
state they end. From them follow the step lemma of the loop (`loop_step`) and, over every run, the
agreement of the registry with the kernel and the safety of the calls.
-/

namespace SystemCallLearn.Reactor

open SystemCallLearn.Posix SystemCallLearn.Lib

/-- The computation does not fault, and the value it returns satisfies `Q`. -/
abbrev Safe {α : Type} (Q : α → Prop) (x : Exec α) : Prop := Outcome (· ≠ Stop.fault) Q x

section Callbacks

variable {s t : Server} {evp : EventPtr} {ev : Event}

/-! ## The callbacks -/

/-- After `RecverCore`, `SplitSegment` and the responses. -/
def Server.received (s : Server) (evp : EventPtr) (ev : Event) (r : RecverRun) : Server :=
  s.touched evp { ev with inbuffer := r.inbuffer, outbuffer := r.outbuffer } r.errno
    (if r.outbuffer = ev.outbuffer then [] else [.append evp])

/-- After `SenderCore`. -/
def Server.sent (s : Server) (evp : EventPtr) (ev : Event) (r : SenderEnd) : Server :=
  s.touched evp { ev with outbuffer := r.outbuffer } r.errno
    (r.calls.map (Action.send ev.sock ev.outbuffer)).reverse

theorem deletions_sends (sock : Int) (outbuffer : Bytes) (calls : List SendCall) :
    deletions (calls.map (Action.send sock outbuffer)).reverse = [] := by
  simp [deletions]

theorem same_buffers (hconn : ev.IsConn) (inbuffer outbuffer : Bytes) :
    ev.Same { ev with inbuffer := inbuffer, outbuffer := outbuffer } :=
  ⟨rfl, rfl, fun h => h, fun h => by simp [hconn.1, Event.IsListen] at h⟩

theorem inv_received (hs : s.Inv) (hr : s.Registered evp ev) (hconn : ev.IsConn) (r : RecverRun) :
    (s.received evp ev r).Inv := by
  apply inv_touched hs hr (same_buffers hconn _ _) _
  split_ifs <;> rfl

theorem inv_sent (hs : s.Inv) (hr : s.Registered evp ev) (hconn : ev.IsConn) (r : SenderEnd) :
    (s.sent evp ev r).Inv :=
  inv_touched hs hr (same_buffers hconn _ _) _ (deletions_sends _ _ _)

/-- `Recver` on a registered connection returns where the handler does. -/
theorem server_recver_eq (hs : s.Inv) (hr : s.Registered evp ev) (hconn : ev.IsConn)
    (hR : ev.R = some s.this) {a : Answers} {r : RecverRun}
    (h : recver s.errno a.frame ev.inbuffer ev.outbuffer a.recv = some r) :
    s.recver evp a = .ok ((s.received evp ev r).finished evp ev.sock a.mod r.next) := by
  have hr' := hr.touched (same_buffers hconn r.inbuffer r.outbuffer) r.errno
    (if r.outbuffer = ev.outbuffer then [] else [.append evp])
  simp only [Server.recver, deref_eq hr.live, Exec.ok_bind, h]
  exact finish_eq (inv_received hs hr hconn r) hr' hconn hR r.next a.mod

/-- `Sender` on a registered connection returns where the handler does. -/
theorem server_sender_eq (hs : s.Inv) (hr : s.Registered evp ev) (hconn : ev.IsConn)
    (hR : ev.R = some s.this) {a : Answers} {r : SenderEnd}
    (h : senderCore s.errno ev.outbuffer a.send = some r) :
    s.sender evp a = .ok ((s.sent evp ev r).finished evp ev.sock a.mod r.next) := by
  have hr' := hr.touched (same_buffers hconn ev.inbuffer r.outbuffer) r.errno
    (r.calls.map (Action.send ev.sock ev.outbuffer)).reverse
  simp only [Server.sender, deref_eq hr.live, Exec.ok_bind, h]
  exact finish_eq (inv_sent hs hr hconn r) hr' hconn hR r.next a.mod

/-- **`Recver` on a registered connection.** -/
theorem server_recver_safe (hs : s.Inv) (hr : s.Registered evp ev) (hconn : ev.IsConn)
    (hR : ev.R = some s.this) (a : Answers) :
    Safe (fun t => ∃ r, recver s.errno a.frame ev.inbuffer ev.outbuffer a.recv = some r ∧
      t = (s.received evp ev r).finished evp ev.sock a.mod r.next) (s.recver evp a) := by
  cases h : recver s.errno a.frame ev.inbuffer ev.outbuffer a.recv with
  | none =>
    simp only [Server.recver, deref_eq hr.live, Exec.ok_bind, h]
    exact Stop.noConfusion
  | some r =>
    rw [server_recver_eq hs hr hconn hR h]
    exact ⟨r, rfl, rfl⟩

/-- **`Sender` on a registered connection.** -/
theorem server_sender_safe (hs : s.Inv) (hr : s.Registered evp ev) (hconn : ev.IsConn)
    (hR : ev.R = some s.this) (a : Answers) :
    Safe (fun t => ∃ r, senderCore s.errno ev.outbuffer a.send = some r ∧
      t = (s.sent evp ev r).finished evp ev.sock a.mod r.next) (s.sender evp a) := by
  cases h : senderCore s.errno ev.outbuffer a.send with
  | none =>
    simp only [Server.sender, deref_eq hr.live, Exec.ok_bind, h]
    exact Stop.noConfusion
  | some r =>
    rw [server_sender_eq hs hr hconn hR h]
    exact ⟨r, rfl, rfl⟩

/-- One iteration of `Accepter` that has accepted `fd`. -/
theorem accepter_accepted (hs : s.Inv) (hev : s.heap evp = some ev) (hR : ev.R = some s.this)
    {fd : Int} (h0 : 0 ≤ fd) (hfd : s.opened fd = false) (add : Option Errno)
    (rest : List AcceptResult) :
    s.accepter evp (.ok fd add :: rest) = (s.accepted fd add).accepter evp rest := by
  have ho : (s.openSock fd).Inv := inv_openSock hs fd
  have hnew := inv_new ho (connEvent fd (some s.this)) (.inl (connEvent_isConn fd _))
  have hheap : ((s.openSock fd).new (connEvent fd (some s.this))).1.heap s.next =
      some (connEvent fd (some s.this)) := Function.update_self _ _ _
  have hopen : ((s.openSock fd).new (connEvent fd (some s.this))).1.opened fd = true := by
    simp [Server.new, Server.openSock]
  obtain ⟨b, hins⟩ := insertEvent_eq hnew hheap hopen (hs.unregistered hfd).1
    (epollIn ||| epollEt) add
  have hneg : ¬ fd < 0 := by omega
  simp only [Server.accepter, deref_eq hev, Exec.ok_bind, Server.accept, h0, hfd, and_self, if_true,
    hneg, if_false, hR]
  have hthrough : ((s.openSock fd).new (connEvent fd (some s.this))).1.through (some s.this) =
      .ok () := through_eq rfl
  rw [hthrough]
  simp only [Exec.ok_bind, AcceptResult.add]
  exact congrArg (· >>= fun x => x.1.accepter evp rest) hins

theorem accepted_this (s : Server) (fd : Int) (add : Option Errno) :
    (s.accepted fd add).this = s.this := by
  cases add <;> rfl

theorem accepted_heap_eq (s : Server) (fd : Int) (add : Option Errno) :
    (s.accepted fd add).heap =
      Function.update s.heap s.next (some (connEvent fd (some s.this))) := by
  cases add <;> rfl

theorem accepted_next (s : Server) (fd : Int) (add : Option Errno) :
    (s.accepted fd add).next = s.next + 1 := by
  cases add <;> rfl

theorem accepted_opened (s : Server) (fd : Int) (add : Option Errno) :
    (s.accepted fd add).opened = Function.update s.opened fd true := by
  cases add <;> rfl

theorem accepted_flags_eq (s : Server) (fd : Int) (add : Option Errno) :
    (s.accepted fd add).flags = Function.update s.flags fd oRdwr := by
  cases add <;> rfl

theorem accepted_log (s : Server) (fd : Int) (add : Option Errno) :
    (s.accepted fd add).log = s.log := by
  cases add <;> rfl

/-- An accepted connection leaves the live `Event`s where they are. -/
theorem accepted_heap (hs : s.Inv) (hev : s.heap evp = some ev) (fd : Int) (add : Option Errno) :
    (s.accepted fd add).heap evp = some ev := by
  rw [accepted_heap_eq, Function.update_of_ne (hs.ne_next hev), hev]

/-- **The rule of `Accepter`.** What an accepted connection and a failed `accept` keep holds when it
    returns; and it does not fault on a live `Event`. -/
theorem accepter_safe {I : Server → Prop}
    (herr : ∀ s e, s.Inv → I s → I { s with errno := e })
    (hok : ∀ s fd add, s.Inv → I s → 0 ≤ fd → s.opened fd = false → I (s.accepted fd add))
    (hs : s.Inv) (hI : I s) (hev : s.heap evp = some ev) (hR : ev.R = some s.this)
    (answers : List AcceptResult) :
    Safe (fun t => t.Inv ∧ I t) (s.accepter evp answers) := by
  induction answers generalizing s with
  | nil => exact Stop.noConfusion
  | cons a rest ih =>
    cases a with
    | err e =>
      simp only [Server.accepter, deref_eq hev, Exec.ok_bind, Server.accept]
      exact ⟨inv_errno hs e, herr s e hs hI⟩
    | ok fd add =>
      by_cases hnew : 0 ≤ fd ∧ s.opened fd = false
      · rw [accepter_accepted hs hev hR hnew.1 hnew.2]
        refine ih (inv_accepted hs fd add) (hok s fd add hs hI hnew.1 hnew.2)
          (accepted_heap hs hev fd add) ?_
        rw [accepted_this]
        exact hR
      · simp only [Server.accepter, deref_eq hev, Exec.ok_bind, Server.accept, if_neg hnew]
        exact Stop.noConfusion

end Callbacks

/-! ## The blocks of an entry -/

/-- What a block for the descriptor `fd` may do to the map: other keys keep their `Event`s, and `fd`
    does not get a new one. -/
structure Keeps (fd : Int) (s t : Server) : Prop where
  others : ∀ fd' evp, fd' ≠ fd → s.events fd' = some evp → t.events fd' = some evp
  current : ∀ evp, t.events fd = some evp → s.events fd = some evp

theorem Keeps.refl (fd : Int) (s : Server) : Keeps fd s s := ⟨fun _ _ _ h => h, fun _ h => h⟩

/-- The end of a callback touches the map at its own descriptor only. -/
theorem keeps_finished {s t : Server} (hst : t.events = s.events) (evp : EventPtr) (fd : Int)
    (mod : Option Errno) (next : Next) : Keeps fd s (t.finished evp fd mod next) := by
  cases next with
  | nothing => exact ⟨fun _ _ _ h => hst ▸ h, fun _ h => hst ▸ h⟩
  | errer =>
    constructor
    · intro fd' p hne hp
      simpa [Server.finished, Server.removed, Function.update_of_ne hne, hst] using hp
    · intro p hp
      simp [Server.finished, Server.removed] at hp
  | enableRW read write =>
    cases mod <;> exact ⟨fun _ _ _ h => hst ▸ h, fun _ h => hst ▸ h⟩

section Blocks

variable {s : Server} {rev : EpollEvent} {evp : EventPtr}

theorem readCall_eq (hs : s.Inv) (rev : EpollEvent) : ∃ call, s.readCall rev = .ok call ∧
    ∀ f evp, call = some (f, evp) → s.events rev.fd = some evp ∧
      ∃ ev, s.Registered evp ev ∧ ev.sock = rev.fd ∧ ev.R = some s.this ∧ ev.recver = some f := by
  unfold Server.readCall
  split_ifs
  · cases he : s.events rev.fd with
    | none => exact ⟨none, rfl, by simp⟩
    | some evp =>
      obtain ⟨ev, hr, hsock, hR⟩ := hs.registered he
      refine ⟨ev.recver.map fun f => (f, evp), by simp [deref_eq hr.live], ?_⟩
      intro f p hcall
      obtain ⟨f', hf', hpair⟩ := Option.map_eq_some_iff.1 hcall
      obtain ⟨rfl, rfl⟩ := Prod.mk.inj hpair
      exact ⟨rfl, ev, hr, hsock, hR, hf'⟩
  · exact ⟨none, rfl, by simp⟩

theorem writeCall_eq (hs : s.Inv) (rev : EpollEvent) : ∃ call, s.writeCall rev = .ok call ∧
    ∀ f evp, call = some (f, evp) → s.events rev.fd = some evp ∧
      ∃ ev, s.Registered evp ev ∧ ev.sock = rev.fd ∧ ev.R = some s.this ∧ ev.sender = some f := by
  unfold Server.writeCall
  split_ifs
  · cases he : s.events rev.fd with
    | none => exact ⟨none, rfl, by simp⟩
    | some evp =>
      obtain ⟨ev, hr, hsock, hR⟩ := hs.registered he
      refine ⟨ev.sender.map fun f => (f, evp), by simp [deref_eq hr.live], ?_⟩
      intro f p hcall
      obtain ⟨f', hf', hpair⟩ := Option.map_eq_some_iff.1 hcall
      obtain ⟨rfl, rfl⟩ := Prod.mk.inj hpair
      exact ⟨rfl, ev, hr, hsock, hR, hf'⟩
  · exact ⟨none, rfl, by simp⟩

theorem isConn_of_recver {ev : Event} (hs : s.Inv) (hev : s.heap evp = some ev)
    (h : ev.recver = some .recver) : ev.IsConn := by
  rcases hs.kinds evp ev hev with hconn | hlisten
  · exact hconn
  · rw [hlisten.1] at h
    cases h

theorem isConn_of_sender {ev : Event} {f : WriteCallback} (hs : s.Inv) (hev : s.heap evp = some ev)
    (h : ev.sender = some f) : ev.IsConn := by
  rcases hs.kinds evp ev hev with hconn | hlisten
  · exact hconn
  · rw [hlisten.2.1] at h
    cases h

/-- **What the read block does.** Nothing, `Accepter` on the listening `Event`, or `Recver` on a
    connection. -/
theorem readBlock_cases (hs : s.Inv) (rev : EpollEvent) (a : Answers) :
    s.readBlock rev a = .ok s ∨
    (∃ evp ev, s.Registered evp ev ∧ ev.sock = rev.fd ∧ ev.R = some s.this ∧
      ev.recver = some .accepter ∧ s.readBlock rev a = s.accepter evp a.accept) ∨
    ∃ evp ev, s.Registered evp ev ∧ ev.sock = rev.fd ∧ ev.R = some s.this ∧ ev.IsConn ∧
      s.readBlock rev a = s.recver evp a := by
  obtain ⟨call, hcall, hfound⟩ := readCall_eq hs rev
  simp only [Server.readBlock, hcall, Exec.ok_bind]
  cases call with
  | none => exact .inl rfl
  | some c =>
    obtain ⟨f, evp⟩ := c
    obtain ⟨-, ev, hr, hsock, hR, hf⟩ := hfound f evp rfl
    cases f with
    | accepter => exact .inr (.inl ⟨evp, ev, hr, hsock, hR, hf, rfl⟩)
    | recver => exact .inr (.inr ⟨evp, ev, hr, hsock, hR, isConn_of_recver hs hr.live hf, rfl⟩)

/-- **What the write block does.** Nothing, or `Sender` on a connection. -/
theorem writeBlock_cases (hs : s.Inv) (rev : EpollEvent) (a : Answers) :
    s.writeBlock rev a = .ok s ∨
    ∃ evp ev, s.Registered evp ev ∧ ev.sock = rev.fd ∧ ev.R = some s.this ∧ ev.IsConn ∧
      s.writeBlock rev a = s.sender evp a := by
  obtain ⟨call, hcall, hfound⟩ := writeCall_eq hs rev
  simp only [Server.writeBlock, hcall, Exec.ok_bind]
  cases call with
  | none => exact .inl rfl
  | some c =>
    obtain ⟨f, evp⟩ := c
    obtain ⟨-, ev, hr, hsock, hR, hf⟩ := hfound f evp rfl
    exact .inr ⟨evp, ev, hr, hsock, hR, isConn_of_sender hs hr.live hf, rfl⟩

theorem accepter_keeps {ev : Event} (hs : s.Inv) (hr : s.Registered evp ev)
    (hR : ev.R = some s.this) (answers : List AcceptResult) :
    Safe (fun t => t.Inv ∧ ∀ fd p, s.events fd = some p → t.events fd = some p)
      (s.accepter evp answers) := by
  refine accepter_safe (I := fun t => ∀ fd p, s.events fd = some p → t.events fd = some p)
    (fun t e _ ht => ht) (?_) hs (fun _ _ h => h) hr.live hR
    answers
  intro t fd' add ht hkeep _ hfd' fd p hp
  have hp' := hkeep fd p hp
  have hne : fd ≠ fd' := by
    rintro rfl
    rw [(ht.unregistered hfd').1] at hp'
    cases hp'
  cases add with
  | some e => exact hp'
  | none =>
    show Function.update t.events fd' (some t.next) fd = some p
    rwa [Function.update_of_ne hne]

/-- The read block keeps the invariant, does not fault, and touches no other key. -/
theorem readBlock_safe (hs : s.Inv) (a : Answers) :
    Safe (fun t => t.Inv ∧ Keeps rev.fd s t) (s.readBlock rev a) := by
  rcases readBlock_cases hs rev a with h | ⟨evp, ev, hr, hsock, hR, -, h⟩ |
    ⟨evp, ev, hr, hsock, hR, hconn, h⟩
  · rw [h]
    exact ⟨hs, Keeps.refl _ _⟩
  · rw [h]
    refine (accepter_keeps hs hr hR a.accept).mono fun t ⟨ht, hkeep⟩ =>
      ⟨ht, fun fd p _ hp => hkeep fd p hp, ?_⟩
    intro p hp
    have hown := hkeep _ _ hr.stored
    rw [hsock] at hown
    have hstored := hr.stored
    rw [hsock] at hstored
    rw [hstored, ← hown, hp]
  · rw [h, ← hsock]
    apply (server_recver_safe hs hr hconn hR a).mono
    rintro t ⟨r, -, rfl⟩
    have hr' := hr.touched (same_buffers hconn r.inbuffer r.outbuffer) r.errno
      (if r.outbuffer = ev.outbuffer then [] else [.append evp])
    exact ⟨inv_finished (inv_received hs hr hconn r) hr' _ _,
      keeps_finished (s := s) (t := s.received evp ev r) rfl _ _ _ _⟩

theorem writeBlock_safe (hs : s.Inv) (a : Answers) :
    Safe (fun t => t.Inv ∧ Keeps rev.fd s t) (s.writeBlock rev a) := by
  rcases writeBlock_cases hs rev a with h | ⟨evp, ev, hr, hsock, hR, hconn, h⟩
  · rw [h]
    exact ⟨hs, Keeps.refl _ _⟩
  · rw [h, ← hsock]
    apply (server_sender_safe hs hr hconn hR a).mono
    rintro t ⟨r, -, rfl⟩
    have hr' := hr.touched (same_buffers hconn ev.inbuffer r.outbuffer) r.errno
      (r.calls.map (Action.send ev.sock ev.outbuffer)).reverse
    exact ⟨inv_finished (inv_sent hs hr hconn r) hr' _ _,
      keeps_finished (s := s) (t := s.sent evp ev r) rfl _ _ _ _⟩

end Blocks

/-! ## The loop -/

/-- The steps of the loop, by the call or the block that is run. -/
inductive Loop.Moves (st : Loop) : Input → Loop → Prop where
  | failed {e} (hrevs : st.revs = []) :
      Moves st (.wait (.err e)) { st with srv := { st.srv with errno := e } }
  | reported {reports} (hrevs : st.revs = []) (hrep : st.srv.Reports reports) :
      Moves st (.wait (.ok reports))
        { st with revs := st.srv.entries reports, half := .read, snap := st.srv.events }
  | read {rev revs a t} (hrevs : st.revs = rev :: revs) (hhalf : st.half = .read)
      (ht : st.srv.readBlock rev a = .ok t) :
      Moves st (.read a) { st with srv := t, half := .write }
  | write {rev revs a t} (hrevs : st.revs = rev :: revs) (hhalf : st.half = .write)
      (ht : st.srv.writeBlock rev a = .ok t) :
      Moves st (.write a) { st with srv := t, revs := revs, half := .read }

/-- **Inversion of a step of the loop.** -/
theorem loop_moves {st st' : Loop} {i : Input} (h : st.step i = .ok st') : st.Moves i st' := by
  cases i with
  | wait answer =>
    by_cases hrevs : st.revs = []
    · cases answer with
      | err e =>
        simp only [Loop.step, if_pos hrevs] at h
        obtain rfl := Except.ok.inj h
        exact .failed hrevs
      | ok reports =>
        by_cases hrep : st.srv.Reports reports
        · simp only [Loop.step, if_pos hrevs, if_pos hrep] at h
          obtain rfl := Except.ok.inj h
          exact .reported hrevs hrep
        · simp only [Loop.step, if_pos hrevs, if_neg hrep] at h
          cases h
    · simp only [Loop.step, if_neg hrevs] at h
      cases h
  | read a =>
    simp only [Loop.step] at h
    split at h
    · rename_i rev revs hrevs hhalf
      obtain ⟨t, ht, hok⟩ := Exec.bind_eq_ok.1 h
      obtain rfl := Except.ok.inj hok
      exact .read hrevs hhalf ht
    · cases h
  | write a =>
    simp only [Loop.step] at h
    split at h
    · rename_i rev revs hrevs hhalf
      obtain ⟨t, ht, hok⟩ := Exec.bind_eq_ok.1 h
      obtain rfl := Except.ok.inj hok
      exact .write hrevs hhalf ht
    · cases h

/-- The entries whose read block is still to come. -/
def Loop.later (st : Loop) : List EpollEvent :=
  match st.half with
  | .read => st.revs
  | .write => st.revs.tail

/-- The invariant of the loop: the registry's, each descriptor occurs once in the rest of the batch,
    the entries still to come have the `Event`s they had when `epoll_wait` returned, and between the
    two blocks of an entry its descriptor has that `Event` or none. -/
structure Loop.Inv (st : Loop) : Prop where
  srv : st.srv.Inv
  nodup : (st.revs.map EpollEvent.fd).Nodup
  later : ∀ rev ∈ st.later, ∃ evp, st.srv.events rev.fd = some evp ∧ st.snap rev.fd = some evp
  current : ∀ rev, st.half = .write → st.revs.head? = some rev →
    ∀ evp, st.srv.events rev.fd = some evp → st.snap rev.fd = some evp

section Loop

variable {st st' : Loop}

theorem entries_fd {s : Server} (hs : s.Inv) {reports : List (Int × UInt32)}
    (h : ∀ r ∈ reports, (s.interest r.1).isSome = true) :
    (s.entries reports).map EpollEvent.fd = reports.map Prod.fst := by
  induction reports with
  | nil => rfl
  | cons r reports ih =>
    obtain ⟨e, he⟩ := Option.isSome_iff_exists.1 (h r List.mem_cons_self)
    have hfd : e.fd = r.1 := hs.data _ _ he
    have htail := ih fun r' hr' => h r' (List.mem_cons_of_mem _ hr')
    simp only [Server.entries, List.filterMap_cons, he, Option.map_some, List.map_cons, hfd]
    rw [← htail]
    rfl

/-- After the read block of an entry the rest of the batch is as before. -/
theorem Loop.Inv.afterRead (h : st.Inv) {rev : EpollEvent} {revs : List EpollEvent}
    (hrevs : st.revs = rev :: revs) (hhalf : st.half = .read) {t : Server} (ht : t.Inv)
    (hkeep : Keeps rev.fd st.srv t) : Loop.Inv { st with srv := t, half := .write } := by
  have hnodup := h.nodup
  rw [hrevs, List.map_cons, List.nodup_cons] at hnodup
  have hlater := h.later
  simp only [Loop.later, hhalf, hrevs] at hlater
  refine ⟨ht, h.nodup, ?_, ?_⟩
  · intro rev' hrev'
    simp only [Loop.later, hrevs, List.tail_cons] at hrev'
    obtain ⟨evp, hevp, hsnap⟩ := hlater rev' (List.mem_cons_of_mem _ hrev')
    have hne : rev'.fd ≠ rev.fd := by
      intro heq
      exact hnodup.1 (heq ▸ List.mem_map_of_mem hrev')
    exact ⟨evp, hkeep.others _ _ hne hevp, hsnap⟩
  · intro rev' _ hhead evp hevp
    simp only [hrevs, List.head?_cons, Option.some.injEq] at hhead
    subst hhead
    obtain ⟨evp', hevp', hsnap⟩ := hlater rev List.mem_cons_self
    obtain rfl : evp' = evp := Option.some.inj (hevp'.symm.trans (hkeep.current _ hevp))
    exact hsnap

theorem Loop.Inv.afterWrite (h : st.Inv) {rev : EpollEvent} {revs : List EpollEvent}
    (hrevs : st.revs = rev :: revs) (hhalf : st.half = .write) {t : Server} (ht : t.Inv)
    (hkeep : Keeps rev.fd st.srv t) :
    Loop.Inv { st with srv := t, revs := revs, half := .read } := by
  have hnodup := h.nodup
  rw [hrevs, List.map_cons, List.nodup_cons] at hnodup
  have hlater := h.later
  simp only [Loop.later, hhalf, hrevs, List.tail_cons] at hlater
  refine ⟨ht, hnodup.2, ?_, fun rev' hw _ => by cases hw⟩
  intro rev' hrev'
  obtain ⟨evp, hevp, hsnap⟩ := hlater rev' hrev'
  have hne : rev'.fd ≠ rev.fd := by
    intro heq
    exact hnodup.1 (heq ▸ List.mem_map_of_mem hrev')
  exact ⟨evp, hkeep.others _ _ hne hevp, hsnap⟩

/-- **The step lemma.** No step of the loop faults, and every step keeps the invariant. -/
theorem loop_step (h : st.Inv) (i : Input) : Safe Loop.Inv (st.step i) := by
  cases i with
  | wait answer =>
    by_cases hrevs : st.revs = []
    · cases answer with
      | err e =>
        simp only [Loop.step, if_pos hrevs]
        exact ⟨inv_errno h.srv e, h.nodup, h.later, h.current⟩
      | ok reports =>
        by_cases hrep : st.srv.Reports reports
        · have hfds := entries_fd h.srv hrep.2.1
          simp only [Loop.step, if_pos hrevs, if_pos hrep]
          refine ⟨h.srv, by simpa [hfds] using hrep.1, ?_, fun rev hw => by cases hw⟩
          intro rev hrev
          have hmem : rev.fd ∈ reports.map Prod.fst := hfds ▸ List.mem_map_of_mem hrev
          obtain ⟨r, hr, hfd⟩ := List.mem_map.1 hmem
          have hkey := h.srv.keys rev.fd
          rw [← hfd, hrep.2.1 r hr] at hkey
          obtain ⟨evp, hevp⟩ := Option.isSome_iff_exists.1 hkey
          rw [hfd] at hevp
          exact ⟨evp, hevp, hevp⟩
        · simp only [Loop.step, if_pos hrevs, if_neg hrep]
          exact Stop.noConfusion
    · simp only [Loop.step, if_neg hrevs]
      exact Stop.noConfusion
  | read a =>
    simp only [Loop.step]
    split
    · rename_i rev revs hrevs hhalf
      exact (readBlock_safe h.srv a).bind fun t ⟨ht, hkeep⟩ => h.afterRead hrevs hhalf ht hkeep
    · exact Stop.noConfusion
  | write a =>
    simp only [Loop.step]
    split
    · rename_i rev revs hrevs hhalf
      exact (writeBlock_safe h.srv a).bind fun t ⟨ht, hkeep⟩ => h.afterWrite hrevs hhalf ht hkeep
    · exact Stop.noConfusion

/-! ## `main` -/

theorem inv_boot (this : ReactorPtr) (opened : Int → Bool) (flags : Int → Nat) (errno : Errno) :
    (Server.boot this opened flags errno).Inv := by
  refine ⟨⟨fun _ => rfl, fun _ _ h => ?_, fun _ _ h => ?_, fun _ _ _ h => ?_, fun _ _ h => ?_⟩,
    fun _ _ h => ?_, fun _ _ => rfl, fun _ h => ?_, List.nodup_nil, fun _ _ h => ?_⟩ <;> cases h

theorem inv_setNonBlock {s : Server} (hs : s.Inv) (fd : Int) (getfl setfl : Option Errno) :
    (s.setNonBlock fd getfl setfl).Inv := by
  unfold Server.setNonBlock
  cases getfl with
  | some e => exact inv_errno hs e
  | none =>
    cases setfl with
    | some e => exact inv_errno hs e
    | none =>
      exact ⟨⟨hs.keys, hs.opened, hs.stored, hs.distinct, hs.deleted⟩, hs.data, hs.fresh, hs.gone,
        hs.once, hs.kinds⟩

/-- The process when `main` enters its loop, with the listening socket `fd` and the epoll instance
    `epfd`. -/
def Server.started (s : Server) (fd epfd : Int) (a : MainAnswers) : Server :=
  let s := (s.openSock fd).setNonBlock fd a.getfl a.setfl
  let s := { s.openSock epfd with epfd := epfd }
  (s.new (listenEvent fd (some s.this))).1.inserted s.next fd (epollIn ||| epollEt) a.add

/-- `main` changes descriptors, flags and `errno`, allocates one `Event` and registers it. -/
theorem started_eq (s : Server) (fd epfd : Int) (a : MainAnswers) :
    ∃ flags errno, s.started fd epfd a =
      (Server.new { s with
          epfd := epfd
          opened := Function.update (Function.update s.opened fd true) epfd true
          flags := flags
          errno := errno } (listenEvent fd (some s.this))).1.inserted s.next fd
        (epollIn ||| epollEt) a.add := by
  unfold Server.started Server.setNonBlock
  cases a.getfl <;> cases a.setfl <;> exact ⟨_, _, rfl⟩

theorem setNonBlock_opened (s : Server) (fd : Int) (getfl setfl : Option Errno) :
    (s.setNonBlock fd getfl setfl).opened = s.opened := by
  unfold Server.setNonBlock
  cases getfl <;> cases setfl <;> rfl

theorem setNonBlock_events (s : Server) (fd : Int) (getfl setfl : Option Errno) :
    (s.setNonBlock fd getfl setfl).events = s.events := by
  unfold Server.setNonBlock
  cases getfl <;> cases setfl <;> rfl

theorem listenEvent_isListen (fd : Int) (R : Option ReactorPtr) : (listenEvent fd R).IsListen :=
  ⟨rfl, rfl, rfl⟩

theorem socket_ok {s t : Server} {fd : Int} {answer : Except Errno Int}
    (h : s.socket answer = .ok (t, fd)) : s.opened fd = false ∧ t = s.openSock fd := by
  cases answer with
  | error e => cases h
  | ok fd' =>
    simp only [Server.socket] at h
    split_ifs at h with hfd
    obtain ⟨rfl, rfl⟩ := Prod.mk.inj (Except.ok.inj h)
    exact ⟨hfd.2, rfl⟩

theorem bind_ok {s t : Server} {answer : Option Errno} (h : s.bind answer = .ok t) : t = s := by
  cases answer with
  | none => exact (Except.ok.inj h).symm
  | some e => cases h

theorem listen_ok {s t : Server} {answer : Option Errno} (h : s.listen answer = .ok t) :
    t = s := by
  cases answer with
  | none => exact (Except.ok.inj h).symm
  | some e => cases h

theorem initReactor_ok {s t : Server} {answer : Except Errno Int}
    (h : s.initReactor answer = .ok t) :
    ∃ epfd, s.opened epfd = false ∧ t = { s.openSock epfd with epfd := epfd } := by
  cases answer with
  | error e => cases h
  | ok fd' =>
    simp only [Server.initReactor] at h
    split_ifs at h with hfd
    exact ⟨fd', hfd.2, (Except.ok.inj h).symm⟩

/-- **`main` up to its loop.** -/
theorem main_eq {this : ReactorPtr} {opened : Int → Bool} {flags : Int → Nat} {errno : Errno}
    {argc : Nat} {a : MainAnswers}
    (h : (Server.boot this opened flags errno).main argc a = .ok st) :
    ∃ fd epfd, fd ≠ epfd ∧
      st.srv = (Server.boot this opened flags errno).started fd epfd a ∧ st.srv.Inv ∧
      st.revs = [] ∧ st.half = .read := by
  have hboot := inv_boot this opened flags errno
  have hempty : ∀ fd, (Server.boot this opened flags errno).events fd = none := fun _ => rfl
  generalize Server.boot this opened flags errno = boot at h hboot hempty ⊢
  simp only [Server.main] at h
  split_ifs at h with hargc
  obtain ⟨⟨s₁, fd⟩, h₁, h⟩ := Exec.bind_eq_ok.1 h
  obtain ⟨s₂, h₂, h⟩ := Exec.bind_eq_ok.1 h
  obtain ⟨s₃, h₃, h⟩ := Exec.bind_eq_ok.1 h
  obtain ⟨s₄, h₄, h⟩ := Exec.bind_eq_ok.1 h
  obtain ⟨⟨s₅, b⟩, h₅, h⟩ := Exec.bind_eq_ok.1 h
  obtain ⟨-, rfl⟩ := socket_ok h₁
  obtain rfl := bind_ok h₂
  obtain rfl := listen_ok h₃
  obtain ⟨epfd, hepfd, rfl⟩ := initReactor_ok h₄
  have hne : fd ≠ epfd := by
    rintro rfl
    simp [setNonBlock_opened, Server.openSock] at hepfd
  have hready := inv_setNonBlock (inv_openSock hboot fd) fd a.getfl a.setfl
  have hopened : ((boot.openSock fd).setNonBlock fd a.getfl a.setfl).opened fd = true := by
    simp [setNonBlock_opened, Server.openSock]
  have hevents : ∀ fd', ((boot.openSock fd).setNonBlock fd a.getfl a.setfl).events fd' = none := by
    simpa [setNonBlock_events, Server.openSock] using hempty
  generalize hr : (boot.openSock fd).setNonBlock fd a.getfl a.setfl = ready at *
  have hinit : Server.Inv { ready.openSock epfd with epfd := epfd } := by
    have ho := inv_openSock hready epfd
    exact ⟨⟨ho.keys, ho.opened, ho.stored, ho.distinct, ho.deleted⟩, ho.data, ho.fresh, ho.gone,
      ho.once, ho.kinds⟩
  have hnew := inv_new hinit _ (.inr (listenEvent_isListen fd (some ready.this)))
  have hheap : Server.heap (Server.new { ready.openSock epfd with epfd := epfd }
      (listenEvent fd (some ready.this))).1 ready.next =
        some (listenEvent fd (some ready.this)) := by
    simp [Server.new, Server.openSock]
  have hopened' : Server.opened (Server.new { ready.openSock epfd with epfd := epfd }
      (listenEvent fd (some ready.this))).1 fd = true := by
    simp [Server.new, Server.openSock, Function.update_of_ne hne, hopened]
  obtain ⟨b', hins⟩ := insertEvent_eq hnew hheap hopened' (hevents fd) (epollIn ||| epollEt) a.add
  obtain ⟨rfl, -⟩ := Prod.mk.inj (Except.ok.inj (hins.symm.trans h₅))
  obtain rfl := Except.ok.inj h
  refine ⟨fd, epfd, hne, by simp only [Server.started, hr]; rfl, ?_, rfl, rfl⟩
  exact inv_inserted hnew hheap rfl (fun fd' => hinit.next_new fd') hopened' _ _

theorem inv_started (h : Started st) : st.Inv := by
  obtain ⟨this, opened, flags, errno, argc, a, hmain⟩ := h
  obtain ⟨fd, epfd, -, -, hinv, hrevs, hhalf⟩ := main_eq hmain
  refine ⟨hinv, by simp [hrevs], ?_, ?_⟩
  · intro rev hrev
    simp [Loop.later, hhalf, hrevs] at hrev
  · intro rev hw
    rw [hhalf] at hw
    cases hw

/-- **The run lemma.** Every state of every run of the server satisfies the invariant. -/
theorem loop_run {is : List Input} (h0 : Started st) (h : Run Loop.Steps st is st') : st'.Inv :=
  h.invariant (fun _ i _ hi hst => (loop_step hi i).ok hst) (inv_started h0)

/-! ## A run -/

/-- The answers of a callback that makes no call. -/
def Answers.none : Answers where
  accept := []
  recv := []
  send := []
  mod := Option.none
  frame := ⟨fun _ => 0, []⟩

/-- A `main` whose calls all succeed, with 3 as the listening socket and 4 as the epoll instance. -/
def MainAnswers.good : MainAnswers where
  socket := .ok 3
  getfl := Option.none
  setfl := Option.none
  bind := Option.none
  listen := Option.none
  epollCreate := .ok 4
  add := Option.none

/-- The process at the start, with the standard streams open. -/
def Server.fresh : Server := Server.boot 0 (fun fd => decide (0 ≤ fd ∧ fd < 3)) (fun _ => 0) .zero

theorem exists_run (a : MainAnswers) (is : List Input) {p : Loop → Bool}
    (h : ((Server.fresh.main 2 a).toOption.any fun st =>
      (exec (fun st i => (st.step i).toOption) st is).any p) = true) :
    ∃ st st', Server.fresh.main 2 a = .ok st ∧ Run Loop.Steps st is st' ∧ p st' = true := by
  cases hmain : Server.fresh.main 2 a with
  | error e => simp [hmain, Except.toOption] at h
  | ok st =>
    simp only [hmain, Except.toOption, Option.any_some] at h
    obtain ⟨st', hst', hp⟩ := (Option.any_eq_true ..).1 h
    exact ⟨st, st', rfl, exec_ok hst', hp⟩

/-- Connections 5 and 6 are accepted; in the next batch 5 is deleted, the number 5 is accepted
    again, and then comes 6. -/
def reuseInputs : List Input :=
  [.wait (.ok [(3, epollIn)]),
   .read { Answers.none with accept := [.ok 5 none, .ok 6 none, .err .eagain] },
   .write Answers.none,
   .wait (.ok [(5, epollIn ||| epollErr), (3, epollIn), (6, epollHup)]),
   .read { Answers.none with recv := [.ok []] },
   .write Answers.none,
   .read { Answers.none with accept := [.ok 5 none, .err .eagain] },
   .write Answers.none]

/-! ## The registry and the calls -/

/-- **The registry agrees with the kernel.** In every state of every run of the server the keys of
    `events` are the descriptors of the interest list, every key is an open descriptor, the `Event`
    under it is live and has the key as `sock` and this `Reactor` as `R`, distinct keys have
    distinct `Event`s, and no deleted `Event` is stored. -/
theorem registry_agrees (is : List Input) (h0 : Started st) (h : Run Loop.Steps st is st') :
    st'.srv.Agrees :=
  (loop_run h0 h).srv.toAgrees

/-- The registry agrees after a descriptor has been reused within a batch. -/
theorem registry_agrees_reuse :
    ∃ st st', Started st ∧ Run Loop.Steps st reuseInputs st' ∧
      (st'.srv.events 5 = some 3 ∧ st'.srv.events 6 = some 2 ∧ st'.srv.heap 1 = none) ∧
      st'.srv.Agrees := by
  obtain ⟨st, st', hmain, hrun, hp⟩ := exists_run .good reuseInputs
    (p := fun st => decide (st.srv.events 5 = some 3 ∧ st.srv.events 6 = some 2 ∧
      st.srv.heap 1 = none)) (by decide +kernel)
  have h0 : Started st := ⟨_, _, _, _, _, _, hmain⟩
  exact ⟨st, st', h0, hrun, of_decide_eq_true hp, registry_agrees _ h0 hrun⟩

/-- A callback is about to be called with an `Event` that is live, not deleted, stored under its own
    descriptor, and registered for the descriptor of the entry when `epoll_wait` returned. -/
def Loop.Calls (st : Loop) (rev : EpollEvent) (evp : EventPtr) (ev : Event) : Prop :=
  st.srv.heap evp = some ev ∧ evp ∉ deletions st.srv.log ∧ st.srv.events ev.sock = some evp ∧
    ev.sock = rev.fd ∧ st.snap rev.fd = some evp

/-- **Dispatch is safe.** In every state of every run of the server, the lookup of the next block
    does not fault; the callback it finds is not null and is called with the `Event` it was reported
    for; no step faults, a second deletion included; and no `Event` has been deleted twice. -/
theorem dispatch_safe (is : List Input) (h0 : Started st) (h : Run Loop.Steps st is st') :
    (∀ rev revs, st'.revs = rev :: revs → st'.half = .read →
      ∃ call, st'.srv.readCall rev = .ok call ∧
        ∀ f evp, call = some (f, evp) → ∃ ev, st'.Calls rev evp ev ∧ ev.recver = some f) ∧
    (∀ rev revs, st'.revs = rev :: revs → st'.half = .write →
      ∃ call, st'.srv.writeCall rev = .ok call ∧
        ∀ f evp, call = some (f, evp) → ∃ ev, st'.Calls rev evp ev ∧ ev.sender = some f) ∧
    (∀ i, st'.step i ≠ .error .fault) ∧
    (deletions st'.srv.log).Nodup := by
  have hinv := loop_run h0 h
  refine ⟨?_, ?_, fun i hfault => (loop_step hinv i).error hfault rfl, hinv.srv.once⟩
  · intro rev revs hrevs hhalf
    obtain ⟨call, hcall, hfound⟩ := readCall_eq hinv.srv rev
    refine ⟨call, hcall, ?_⟩
    intro f evp hf
    obtain ⟨hstored, ev, hr, hsock, -, hrecver⟩ := hfound f evp hf
    obtain ⟨evp', hevp', hsnap⟩ := hinv.later rev (by simp [Loop.later, hhalf, hrevs])
    obtain rfl : evp' = evp := Option.some.inj (hevp'.symm.trans hstored)
    exact ⟨ev, ⟨hr.live, hinv.srv.deleted _ _ hstored, hr.stored, hsock, hsnap⟩, hrecver⟩
  · intro rev revs hrevs hhalf
    obtain ⟨call, hcall, hfound⟩ := writeCall_eq hinv.srv rev
    refine ⟨call, hcall, ?_⟩
    intro f evp hf
    obtain ⟨hstored, ev, hr, hsock, -, hsender⟩ := hfound f evp hf
    have hsnap := hinv.current rev hhalf (by simp [hrevs]) evp hstored
    exact ⟨ev, ⟨hr.live, hinv.srv.deleted _ _ hstored, hr.stored, hsock, hsnap⟩, hsender⟩

/-- With 5 reused before it, the entry of 6 still calls `Recver` with the `Event` of 6. -/
theorem dispatch_safe_reuse :
    ∃ st st' ev, Started st ∧ Run Loop.Steps st reuseInputs st' ∧
      st'.srv.readCall { events := epollHup, fd := 6 } = .ok (some (.recver, 2)) ∧
      st'.Calls { events := epollHup, fd := 6 } 2 ev := by
  obtain ⟨st, st', hmain, hrun, hp⟩ := exists_run .good reuseInputs
    (p := fun st => decide (st.revs = [{ events := epollHup, fd := 6 }] ∧ st.half = .read ∧
      (st.srv.readCall { events := epollHup, fd := 6 }).toOption = some (some (.recver, 2))))
    (by decide +kernel)
  obtain ⟨hrevs, hhalf, hcalls⟩ := of_decide_eq_true hp
  have h0 : Started st := ⟨_, _, _, _, _, _, hmain⟩
  obtain ⟨call, hcall, hfound⟩ := (dispatch_safe _ h0 hrun).1 _ _ hrevs hhalf
  obtain rfl : call = some (.recver, 2) := by
    simpa [hcall, Except.toOption] using hcalls
  obtain ⟨ev, hev, -⟩ := hfound _ _ rfl
  exact ⟨st, st', ev, h0, hrun, hcall, hev⟩

end Loop

end SystemCallLearn.Reactor
