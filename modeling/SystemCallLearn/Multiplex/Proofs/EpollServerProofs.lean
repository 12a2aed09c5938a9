import SystemCallLearn.Multiplex.EpollServer
import SystemCallLearn.Multiplex.Proofs.SockProofs
import SystemCallLearn.Lib.Session
import SystemCallLearn.Lib.Trace

/-!
# The interest list of `epoll_server(完善版).cc`

Every open descriptor of the server was open when the loop started, or is registered, or is a
connection whose registration failed, which the server does not notice. An entry of a batch stays
registered and open until it is handled, so `recv` is called on live connections only; and a
connection that ends is deregistered by `close`, so that the `epoll_ctl` behind it always fails.
-/

namespace SystemCallLearn.Multiplex

open SystemCallLearn.Posix SystemCallLearn.Reactor SystemCallLearn.Lib

namespace EpollServer

variable {st st' b : EpollServer} {fd : Int} {rev : EpollEvent} {revs : List EpollEvent}
  {input : Input}

/-! ## What a step can do -/

/-- The failure of the registration of a descriptor that has just been accepted, if any. -/
def addError (st : EpollServer) (fd : Int) (add : Option Errno) : Option Errno :=
  ctlError { st with opened := Function.update st.opened fd true } (.add (event fd)) fd add

/-- The state after `accept` has returned `fd`. -/
def taken (st : EpollServer) (revs : List EpollEvent) (fd : Int) (add : Option Errno) :
    EpollServer :=
  { st with
    revs := revs
    opened := Function.update st.opened fd true
    fresh := st.fresh ++ [fd]
    interest := if st.addError fd add = none then
        Function.update st.interest fd (some (event fd))
      else st.interest }

/-- The steps of the server. -/
inductive Moves (st : EpollServer) : Input → EpollServer → Prop where
  | failed {e} (hrevs : st.revs = []) :
      Moves st (.wait (.err e)) { st with revs := [], reported := [], fresh := [] }
  | reported {reports} (hrevs : st.revs = []) (hrep : st.Reports reports) :
      Moves st (.wait (.ok reports)) { st with
        revs := st.entries reports
        reported := readable (st.entries reports)
        fresh := [] }
  | kept {rev revs a add r} (hrevs : st.revs = rev :: revs)
      (hnone : st.todo rev = .accept → ∃ e, a = .err e)
      (hdata : ∀ fd, st.todo rev = .recv fd → ∃ c bytes, r = .ok (c :: bytes)) :
      Moves st (.entry a add r) { st with revs := revs }
  | taken {rev revs fd add r} (hrevs : st.revs = rev :: revs) (htodo : st.todo rev = .accept)
      (hfd : 0 ≤ fd) (hnew : st.opened fd = false) :
      Moves st (.entry (.ok fd) add r) (st.taken revs fd add)
  | closed {rev revs fd a add r} (hrevs : st.revs = rev :: revs) (htodo : st.todo rev = .recv fd)
      (hend : ∀ c bytes, r ≠ .ok (c :: bytes)) :
      Moves st (.entry a add r) (close { st with revs := revs } fd)

/-- **Deleting a closed descriptor fails.** -/
theorem del_fails (st : EpollServer) (fd : Int) (answer : Option Errno) :
    (st.close fd).ctlError .del fd answer = some .ebadf := by
  unfold ctlError
  apply if_pos
  right
  exact Function.update_self _ _ _

theorem epollCtl_error {op : CtlOp} {answer : Option Errno} {e : Errno}
    (h : st.ctlError op fd answer = some e) : st.epollCtl op fd answer = st := by
  simp only [epollCtl, h]

/-- The end of a connection is its `close`. -/
theorem recvEntry_end (st : EpollServer) (fd : Int) {r : RecvResult}
    (hend : ∀ c bytes, r ≠ .ok (c :: bytes)) : st.recvEntry fd r = st.close fd := by
  have hclose := epollCtl_error (del_fails st fd none)
  cases r with
  | err e => exact hclose
  | ok bytes =>
    cases bytes with
    | nil => exact hclose
    | cons c bytes => exact absurd rfl (hend c bytes)

theorem acceptEntry_cases {a : AcceptResult} {add : Option Errno}
    (h : acceptEntry { st with revs := revs } a add = some st') :
    (∃ e, a = .err e ∧ st' = { st with revs := revs }) ∨
    ∃ fd, a = .ok fd ∧ 0 ≤ fd ∧ st.opened fd = false ∧ st' = st.taken revs fd add := by
  cases a with
  | err e =>
    simp only [acceptEntry, accept, show ¬ (0 : Int) ≤ -1 by omega, if_false,
      Option.some.injEq] at h
    exact .inl ⟨e, rfl, h.symm⟩
  | ok fd =>
    right
    unfold acceptEntry at h
    cases hacc : accept st.opened (.ok fd) with
    | none => simp [hacc] at h
    | some x =>
      obtain ⟨opened, hcreate, rfl⟩ := Option.map_eq_some_iff.1 hacc
      obtain ⟨hfd, hnew, rfl⟩ := create_eq_some hcreate
      simp only [hacc, if_pos hfd, Option.some.injEq] at h
      refine ⟨fd, rfl, hfd, hnew, ?_⟩
      rw [← h]
      unfold epollCtl taken addError
      cases hctl : ctlError { st with opened := Function.update st.opened fd true }
          (.add (event fd)) fd add with
      | none =>
        have hsame : ctlError { st with
            revs := revs, opened := Function.update st.opened fd true
            fresh := st.fresh ++ [fd] } (.add (event fd)) fd add = none := hctl
        simp only [hsame, if_true]
        rfl
      | some e =>
        have hsame : ctlError { st with
            revs := revs, opened := Function.update st.opened fd true
            fresh := st.fresh ++ [fd] } (.add (event fd)) fd add = some e := hctl
        simp only [hsame, if_neg (Option.some_ne_none e)]

/-- **Inversion of a step.** -/
theorem step_moves (h : Step step st input st') : Moves st input st' := by
  cases input with
  | wait answer =>
    cases hrevs : st.revs with
    | cons rev revs => simp [Step, step, hrevs] at h
    | nil =>
      cases answer with
      | err e =>
        simp only [Step, step, hrevs, Option.some.injEq] at h
        rw [← h]
        exact .failed hrevs
      | ok reports =>
        by_cases hrep : st.epfd ≠ -1 ∧ st.Reports reports
        · simp only [Step, step, hrevs, if_pos hrep, Option.some.injEq] at h
          rw [← h]
          exact .reported hrevs hrep.2
        · simp [Step, step, hrevs, hrep] at h
  | entry a add r =>
    cases hrevs : st.revs with
    | nil => simp [Step, step, hrevs] at h
    | cons rev revs =>
      have hsame : todo { st with revs := revs } rev = st.todo rev := rfl
      simp only [Step, step, hrevs, hsame] at h
      cases htodo : st.todo rev with
      | next =>
        simp only [htodo, Option.some.injEq] at h
        rw [← h]
        exact .kept hrevs (by simp [htodo]) (by simp [htodo])
      | accept =>
        simp only [htodo] at h
        rcases acceptEntry_cases h with ⟨e, rfl, rfl⟩ | ⟨fd, rfl, hfd, hnew, rfl⟩
        · exact .kept hrevs (fun _ => ⟨e, rfl⟩) (by simp [htodo])
        · exact .taken hrevs htodo hfd hnew
      | recv fd =>
        simp only [htodo, Option.some.injEq] at h
        by_cases hend : ∀ c bytes, r ≠ .ok (c :: bytes)
        · rw [← h, recvEntry_end _ _ hend]
          exact .closed hrevs htodo hend
        · push Not at hend
          obtain ⟨c, bytes, rfl⟩ := hend
          rw [← h]
          exact .kept hrevs (by simp [htodo]) fun _ _ => ⟨c, bytes, rfl⟩

/-! ## The invariant -/

/-- The connections that a step accepts and cannot register. -/
def losesIn (st : EpollServer) (input : Input) : List Int :=
  match input, st.revs with
  | .entry (.ok fd) add _, rev :: _ =>
    if st.todo rev = .accept ∧ st.addError fd add ≠ none then [fd] else []
  | _, _ => []

/-- What a run loses. -/
def lost (st : EpollServer) (is : List Input) : List Int := emitted step losesIn st is

/-- The invariant of the server, which was `b` when the loop started and has lost the connections
    `lost`: who owns the open descriptors; and the entries still to be handled are registered, each
    under a number of its own. -/
structure Inv (b : EpollServer) (lost : List Int) (st : EpollServer) : Prop where
  listenSock : st.listenSock = b.listenSock
  listenOpen : b.opened b.listenSock = true
  opened : ∀ fd, st.opened fd = true ↔
    b.opened fd = true ∨ (st.interest fd).isSome = true ∨ fd ∈ lost
  data : ∀ fd e, st.interest fd = some e → e = event fd
  conn : ∀ fd, (st.interest fd).isSome = true → fd ≠ st.listenSock → b.opened fd = false
  apart : ∀ fd ∈ lost, b.opened fd = false ∧ st.interest fd = none
  nodup : (st.revs.map EpollEvent.fd).Nodup
  revs : ∀ rev ∈ st.revs, (st.interest rev.fd).isSome = true ∧
    (rev.events &&& epollIn ≠ 0 → rev.fd ∈ st.reported) ∧ rev.fd ∉ st.fresh

section Inv

variable {lost : List Int}

theorem Inv.registered_opened (h : Inv b lost st) (hfd : (st.interest fd).isSome = true) :
    st.opened fd = true :=
  (h.opened fd).2 (.inr (.inl hfd))

/-- A new descriptor is nowhere yet. -/
theorem Inv.unused (h : Inv b lost st) (hnew : st.opened fd = false) :
    b.opened fd = false ∧ st.interest fd = none ∧ fd ∉ lost := by
  have hiff := h.opened fd
  simp only [hnew, Bool.false_eq_true, false_iff, not_or] at hiff
  obtain ⟨hb, hinterest, hlost⟩ := hiff
  exact ⟨by simpa using hb, by simpa using hinterest, hlost⟩

theorem todo_recv (h : st.todo rev = .recv fd) :
    fd = rev.fd ∧ fd ≠ st.listenSock ∧ rev.events &&& epollIn ≠ 0 := by
  unfold todo at h
  split_ifs at h with hin hlisten
  obtain rfl := Todo.recv.inj h
  exact ⟨rfl, hlisten, hin⟩

theorem Inv.tail (h : Inv b lost st) (hrevs : st.revs = rev :: revs) :
    Inv b lost { st with revs := revs } := by
  have hnodup := h.nodup
  rw [hrevs, List.map_cons, List.nodup_cons] at hnodup
  refine ⟨h.listenSock, h.listenOpen, h.opened, h.data, h.conn, h.apart, hnodup.2, ?_⟩
  intro rev' hmem
  exact h.revs rev' (hrevs ▸ List.mem_cons_of_mem rev hmem)

/-- The head of the loop. -/
theorem Inv.waited (h : Inv b lost st) {reports : List (Int × UInt32)} (hrep : st.Reports reports) :
    Inv b lost { st with
      revs := st.entries reports, reported := readable (st.entries reports), fresh := [] } := by
  obtain ⟨hnodup, hreg, -⟩ := hrep
  have hentry : ∀ rev ∈ st.entries reports, ∃ r ∈ reports, rev.fd = r.1 := by
    intro rev hrev
    obtain ⟨r, hr, hmap⟩ := List.mem_filterMap.1 hrev
    obtain ⟨e, he, rfl⟩ := Option.map_eq_some_iff.1 hmap
    exact ⟨r, hr, by rw [h.data _ _ he]; rfl⟩
  have hfds : (st.entries reports).map EpollEvent.fd = reports.map Prod.fst := by
    clear hnodup hentry
    induction reports with
    | nil => rfl
    | cons r reports ih =>
      obtain ⟨e, he⟩ := Option.isSome_iff_exists.1 (hreg r List.mem_cons_self)
      have hrest := ih fun r' hr' => hreg r' (List.mem_cons_of_mem r hr')
      unfold entries at hrest ⊢
      rw [List.filterMap_cons_some (by rw [he]; rfl), List.map_cons, List.map_cons, hrest,
        h.data _ _ he]
      rfl
  refine ⟨h.listenSock, h.listenOpen, h.opened, h.data, h.conn, h.apart, ?_, ?_⟩
  · show ((st.entries reports).map EpollEvent.fd).Nodup
    rw [hfds]
    exact hnodup
  · intro rev hrev
    obtain ⟨r, hr, hfd⟩ := hentry rev hrev
    refine ⟨hfd ▸ hreg r hr, ?_, List.not_mem_nil⟩
    intro hin
    exact List.mem_map.2 ⟨rev, List.mem_filter.2 ⟨hrev, decide_eq_true hin⟩, rfl⟩

/-- A connection ends: its number is free again. -/
theorem Inv.closed (h : Inv b lost st) (hrevs : st.revs = rev :: revs)
    (htodo : st.todo rev = .recv fd) : Inv b lost (close { st with revs := revs } fd) := by
  obtain ⟨rfl, hlisten, -⟩ := todo_recv htodo
  have hmem : rev ∈ st.revs := by
    rw [hrevs]
    exact List.mem_cons_self
  obtain ⟨hreg, -⟩ := h.revs rev hmem
  have hb := h.conn rev.fd hreg hlisten
  have hlost : rev.fd ∉ lost := by
    intro hin
    rw [(h.apart _ hin).2] at hreg
    cases hreg
  have hnodup := h.nodup
  rw [hrevs, List.map_cons, List.nodup_cons] at hnodup
  have hkept : ∀ fd, (Function.update st.interest rev.fd none fd).isSome = true →
      fd ≠ rev.fd ∧ (st.interest fd).isSome = true := by
    intro fd hfd
    rw [Function.update_apply] at hfd
    split_ifs at hfd with hne
    · cases hfd
    · exact ⟨hne, hfd⟩
  refine ⟨h.listenSock, h.listenOpen, ?_, ?_, ?_, ?_, hnodup.2, ?_⟩
  · intro fd
    by_cases hfd : fd = rev.fd
    · simp [close, Fds.close, hfd, hb, hlost]
    · simp only [close, Fds.close, Function.update_of_ne hfd]
      exact h.opened fd
  · intro fd e he
    obtain ⟨hne, -⟩ := hkept fd (Option.isSome_iff_exists.2 ⟨e, he⟩)
    simp only [close, Function.update_of_ne hne] at he
    exact h.data fd e he
  · exact fun fd hfd => h.conn fd (hkept fd hfd).2
  · intro fd hin
    obtain ⟨hfd, hnone⟩ := h.apart fd hin
    refine ⟨hfd, ?_⟩
    simp only [close, Function.update_apply, hnone, ite_self]
  · intro rev' hrev'
    obtain ⟨hreg', hrest⟩ := h.revs rev' (hrevs ▸ List.mem_cons_of_mem rev hrev')
    have hne : rev'.fd ≠ rev.fd := fun heq => hnodup.1 (heq ▸ List.mem_map_of_mem hrev')
    refine ⟨?_, hrest⟩
    simp only [close, Function.update_of_ne hne]
    exact hreg'

/-- The entries that are left name no new descriptor. -/
theorem Inv.revs_ne (h : Inv b lost st) (hrevs : st.revs = rev :: revs)
    (hnew : st.opened fd = false) : ∀ rev' ∈ revs, rev'.fd ≠ fd := by
  rintro rev' hrev' rfl
  obtain ⟨hreg, -⟩ := (h.tail hrevs).revs rev' hrev'
  rw [h.registered_opened hreg] at hnew
  cases hnew

/-- A connection is accepted and registered. -/
theorem Inv.taken_registered (h : Inv b lost st) (hrevs : st.revs = rev :: revs)
    (hnew : st.opened fd = false) {add : Option Errno} (hadd : st.addError fd add = none) :
    Inv b lost (st.taken revs fd add) := by
  obtain ⟨hb, -, hlost⟩ := h.unused hnew
  have htail := h.tail hrevs
  have hfresh := h.revs_ne hrevs hnew
  have hinterest : (st.taken revs fd add).interest =
      Function.update st.interest fd (some (event fd)) := if_pos hadd
  refine ⟨h.listenSock, h.listenOpen, ?_, ?_, ?_, ?_, htail.nodup, ?_⟩
  · intro fd'
    rw [hinterest]
    by_cases hfd : fd' = fd
    · simp [EpollServer.taken, hfd]
    · simp only [EpollServer.taken, Function.update_of_ne hfd]
      exact h.opened fd'
  · intro fd' e he
    rw [hinterest, Function.update_apply] at he
    split_ifs at he with hfd
    · rw [hfd]
      exact (Option.some.inj he).symm
    · exact h.data fd' e he
  · intro fd' hreg hlisten
    by_cases hfd : fd' = fd
    · rw [hfd]
      exact hb
    · rw [hinterest, Function.update_of_ne hfd] at hreg
      exact h.conn fd' hreg hlisten
  · intro fd' hin
    obtain ⟨hfd', hnone'⟩ := h.apart fd' hin
    have hfd : fd' ≠ fd := by
      rintro rfl
      exact hlost hin
    rw [hinterest, Function.update_of_ne hfd]
    exact ⟨hfd', hnone'⟩
  · intro rev' hrev'
    obtain ⟨hreg, hin, hnot⟩ := htail.revs rev' hrev'
    rw [hinterest, Function.update_of_ne (hfresh rev' hrev')]
    refine ⟨hreg, hin, ?_⟩
    simp only [EpollServer.taken, List.mem_append, List.mem_singleton, not_or]
    exact ⟨hnot, hfresh rev' hrev'⟩

/-- A connection is accepted and cannot be registered. -/
theorem Inv.taken_lost (h : Inv b lost st) (hrevs : st.revs = rev :: revs)
    (hnew : st.opened fd = false) {add : Option Errno} (hadd : ¬ st.addError fd add = none) :
    Inv b (lost ++ [fd]) (st.taken revs fd add) := by
  obtain ⟨hb, hnone, -⟩ := h.unused hnew
  have htail := h.tail hrevs
  have hfresh := h.revs_ne hrevs hnew
  have hinterest : (st.taken revs fd add).interest = st.interest := if_neg hadd
  refine ⟨h.listenSock, h.listenOpen, ?_, ?_, ?_, ?_, htail.nodup, ?_⟩
  · intro fd'
    rw [hinterest]
    by_cases hfd : fd' = fd
    · simp [EpollServer.taken, hfd]
    · simp only [EpollServer.taken, Function.update_of_ne hfd, List.mem_append,
        List.mem_singleton, hfd, or_false]
      exact h.opened fd'
  · rw [hinterest]
    exact h.data
  · rw [hinterest]
    exact h.conn
  · rw [hinterest]
    intro fd' hin
    rcases List.mem_append.1 hin with hin | hin
    · exact h.apart fd' hin
    · rw [List.mem_singleton.1 hin]
      exact ⟨hb, hnone⟩
  · intro rev' hrev'
    obtain ⟨hreg, hin, hnot⟩ := htail.revs rev' hrev'
    rw [hinterest]
    refine ⟨hreg, hin, ?_⟩
    simp only [EpollServer.taken, List.mem_append, List.mem_singleton, not_or]
    exact ⟨hnot, hfresh rev' hrev'⟩

/-- A connection is accepted: it is registered or lost. -/
theorem Inv.taken (h : Inv b lost st) (hrevs : st.revs = rev :: revs)
    (hnew : st.opened fd = false) (add : Option Errno) :
    Inv b (lost ++ if st.addError fd add = none then [] else [fd]) (st.taken revs fd add) := by
  split_ifs with hadd
  · rw [List.append_nil]
    exact h.taken_registered hrevs hnew hadd
  · exact h.taken_lost hrevs hnew hadd

/-- **Every step keeps the invariant**, with what it loses. -/
theorem Inv.step (h : Inv b lost st) (hst : Step step st input st') :
    Inv b (lost ++ st.losesIn input) st' := by
  cases step_moves hst with
  | failed hrevs =>
    rw [show st.losesIn (.wait _) = [] from rfl, List.append_nil]
    refine ⟨h.listenSock, h.listenOpen, h.opened, h.data, h.conn, h.apart, List.nodup_nil, ?_⟩
    intro rev hrev
    cases hrev
  | reported hrevs hrep =>
    rw [show st.losesIn (.wait _) = [] from rfl, List.append_nil]
    exact h.waited hrep
  | @kept rev revs a add r hrevs hnone =>
    have hloses : st.losesIn (.entry a add r) = [] := by
      cases a with
      | err e => rfl
      | ok fd =>
        simp only [losesIn, hrevs]
        apply if_neg
        rintro ⟨htodo, -⟩
        obtain ⟨e, he⟩ := hnone htodo
        cases he
    rw [hloses, List.append_nil]
    exact h.tail hrevs
  | @taken rev revs fd add r hrevs htodo hfd hnew =>
    have hloses : st.losesIn (.entry (.ok fd) add r) =
        if st.addError fd add = none then [] else [fd] := by
      simp only [losesIn, hrevs, htodo, true_and, ne_eq, ite_not]
    rw [hloses]
    exact h.taken hrevs hnew add
  | @closed rev revs fd a add r hrevs htodo =>
    have hloses : st.losesIn (.entry a add r) = [] := by
      cases a with
      | err e => rfl
      | ok fd =>
        simp only [losesIn, hrevs, htodo]
        rfl
    rw [hloses, List.append_nil]
    exact h.closed hrevs htodo

end Inv

/-! ## Every run -/

theorem epollCreate_ok {opened opened' : Fds} {create : Except Errno Int} {epfd : Int}
    (h : epollCreate opened create = .ok (opened', epfd)) (hopen : opened fd = true) :
    opened' fd = true := by
  cases create with
  | error e =>
    obtain ⟨rfl, -⟩ := Prod.mk.inj (Except.ok.inj h)
    exact hopen
  | ok k =>
    unfold epollCreate at h
    cases hc : opened.create k with
    | none => simp [hc] at h
    | some o =>
      simp only [hc, Except.ok.injEq, Prod.mk.injEq] at h
      obtain ⟨rfl, -⟩ := h
      obtain ⟨-, -, rfl⟩ := create_eq_some hc
      rw [Function.update_apply, hopen, ite_self]

/-- At most the listening socket is registered when the loop starts. -/
theorem inv_started (h0 : Started st) : Inv st [] st := by
  obtain ⟨opened, argc, a, create, add, hmain⟩ := h0
  unfold main at hmain
  cases hsetup : setup opened argc a with
  | error e =>
    rw [hsetup] at hmain
    cases hmain
  | ok x =>
    obtain ⟨opened', listenSock⟩ := x
    obtain ⟨-, -, rfl⟩ := setup_ok hsetup
    rw [hsetup] at hmain
    cases hcreate : epollCreate (Function.update opened listenSock true) create with
    | error e => simp [hcreate, Bind.bind, Except.bind] at hmain
    | ok y =>
      obtain ⟨opened', epfd⟩ := y
      have hopen := epollCreate_ok hcreate (Function.update_self _ _ _)
      simp only [hcreate, Bind.bind, Except.bind, pure, Except.pure, Except.ok.injEq] at hmain
      subst hmain
      unfold epollCtl
      split
      · refine ⟨rfl, hopen, ?_, ?_, ?_, ?_, List.nodup_nil, ?_⟩ <;> simp
      · have hdata : ∀ fd e, Function.update (fun _ : Int => (none : Option EpollEvent)) listenSock
            (some (event listenSock)) fd = some e → fd = listenSock ∧ e = event fd := by
          intro fd e he
          rw [Function.update_apply] at he
          split_ifs at he with hfd
          exact ⟨hfd, hfd ▸ (Option.some.inj he).symm⟩
        refine ⟨rfl, hopen, ?_, fun fd e he => (hdata fd e he).2, ?_, ?_, List.nodup_nil, ?_⟩
        · intro fd
          refine ⟨.inl, ?_⟩
          rintro (hfd | hfd | hfd)
          · exact hfd
          · obtain ⟨e, he⟩ := Option.isSome_iff_exists.1 hfd
            rw [(hdata fd e he).1]
            exact hopen
          · cases hfd
        · intro fd hfd hne
          obtain ⟨e, he⟩ := Option.isSome_iff_exists.1 hfd
          exact absurd (hdata fd e he).1 hne
        · simp
        · simp

/-- **The run lemma.** -/
theorem inv_run {is : List Input} (h0 : Started st) (h : Run (Step step) st is st') :
    Inv st (st.lost is) st' :=
  h.history (I := fun lost t => Inv st lost t) (fun _ _ _ hst => hst)
    (fun _ _ _ _ hI hst => hI.step hst) (inv_started h0)

/-- **No stale entry is handled.** Whenever the loop is about to call `recv`, the descriptor is an
    open connection that is registered under its own number, that the last `epoll_wait` reported
    readable, that no `accept` has returned since, and that no later entry of the batch names. -/
theorem epollServer_recv {is : List Input} (h0 : Started st) (h : Run (Step step) st is st')
    (hrevs : st'.revs = rev :: revs) (htodo : st'.todo rev = .recv fd) :
    st.opened fd = false ∧ st'.opened fd = true ∧ st'.interest fd = some (event fd) ∧
      fd ∈ st'.reported ∧ fd ∉ st'.fresh ∧ ∀ later ∈ revs, later.fd ≠ fd := by
  have hinv := inv_run h0 h
  obtain ⟨rfl, hlisten, hin⟩ := todo_recv htodo
  have hmem : rev ∈ st'.revs := by
    rw [hrevs]
    exact List.mem_cons_self
  obtain ⟨hreg, hrep, hfresh⟩ := hinv.revs rev hmem
  obtain ⟨e, he⟩ := Option.isSome_iff_exists.1 hreg
  have hnodup := hinv.nodup
  rw [hrevs, List.map_cons, List.nodup_cons] at hnodup
  refine ⟨hinv.conn rev.fd hreg hlisten, hinv.registered_opened hreg, ?_, hrep hin, hfresh, ?_⟩
  · rw [he, hinv.data _ _ he]
  · intro later hlater heq
    exact hnodup.1 (heq ▸ List.mem_map_of_mem hlater)

/-- The server of `streams` and `goodSetup`, with the epoll instance 4, and connection 5, which has
    sent something. -/
def oneClient : List Input :=
  [.wait (.ok [(3, epollIn)]), .entry (.ok 5) none (.ok []), .wait (.ok [(5, epollIn)])]

theorem epollServer_recv_five :
    ∃ st st' rev, Started st ∧ Run (Step step) st oneClient st' ∧ st'.revs = [rev] ∧
      st'.opened 5 = true ∧ st'.interest 5 = some (event 5) ∧ (5 : Int) ∈ st'.reported := by
  have hmain : (main streams 2 goodSetup (.ok 4) none).toOption.isSome = true := by
    decide +kernel
  cases hst : main streams 2 goodSetup (.ok 4) none with
  | error e => simp [hst, Except.toOption] at hmain
  | ok st =>
    have hrun : ((main streams 2 goodSetup (.ok 4) none).toOption.any fun st =>
        (exec step st oneClient).any fun t =>
          decide (t.revs = [event 5] ∧ t.todo (event 5) = .recv 5)) = true := by
      decide +kernel
    simp only [hst, Except.toOption, Option.any_some] at hrun
    obtain ⟨t, ht, hcase⟩ := (Option.any_eq_true _ _).1 hrun
    obtain ⟨hrevs, htodo⟩ := of_decide_eq_true hcase
    have h0 : Started st := ⟨streams, 2, goodSetup, .ok 4, none, hst⟩
    obtain ⟨-, hopen, hreg, hrep, -⟩ := epollServer_recv h0 (exec_run ht) hrevs htodo
    exact ⟨st, t, event 5, h0, exec_run ht, hrevs, hopen, hreg, hrep⟩

end EpollServer

end SystemCallLearn.Multiplex
