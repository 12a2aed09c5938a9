import SystemCallLearn.Multiplex.Proofs.SelectServerProofs
import SystemCallLearn.Multiplex.Proofs.PollServerProofs

/-!
# No read on stale readiness

The scan of `poll_server.cc` accepts a connection only at its first entry, before it closes any. An
entry that is free then was free when `poll` was called, which set its `revents` to 0: the new
connection is not readable before the next `poll`. The same is proved of `select_server.cc` next to
its table (`SelectServer.recv_ready`).
-/

namespace SystemCallLearn.Multiplex.PollServer

open SystemCallLearn.Posix SystemCallLearn.Lib

variable {st st' : PollServer} {lost : Set Int} {i : Nat} {fd : Int} {e : PollFd}

/-- `poll` sets the `revents` of an entry to 0 if its `fd` is negative. -/
def PollZeroes (st : PollServer) : Input → Prop
  | .poll (.ready revents) => ∀ (i : Nat) e, st.arr[i]? = some e → i < st.nfds → e.fd < 0 →
      revents i = 0
  | _ => True

/-- The invariant of a round: what is readable in the entries still to come was given to `poll`,
    reported by it and not accepted since; before the scan the free entries are not readable and all
    that was given is open. -/
structure Ready (st : PollServer) : Prop where
  readable : ∀ i, st.scan = some i → ∀ (j : Nat) e, i ≤ j → j < st.n → st.arr[j]? = some e →
    e.fd ≠ -1 → e.revents &&& pollIn ≠ 0 →
    e.fd ∈ st.given ∧ e.fd ∈ st.reported ∧ e.fd ∉ st.fresh
  free : st.scan = some 0 → ∀ (j : Nat) e, j < st.n → st.arr[j]? = some e → e.fd = -1 →
    e.revents &&& pollIn = 0
  opened : st.scan = some 0 → ∀ fd ∈ st.given, st.opened fd = true

theorem ready_head (h : st.scan = none) : st.Ready := by
  have hno : ∀ {i}, st.scan ≠ some i := by simp [h]
  exact ⟨fun _ hi => absurd hi hno, fun h0 => absurd h0 hno, fun h0 => absurd h0 hno⟩

theorem mem_used {n : Nat} {arr : List PollFd} (hi : arr[i]? = some e) (hlt : i < n)
    (he : e.fd ≠ -1) : e.fd ∈ used n arr := by
  refine List.mem_map.2 ⟨e, List.mem_filter.2 ⟨?_, by simpa using he⟩, rfl⟩
  apply List.mem_of_getElem? (i := i)
  rw [List.getElem?_take_of_lt hlt, hi]

theorem mem_readable {n : Nat} {arr : List PollFd} (hi : arr[i]? = some e) (hlt : i < n)
    (hin : e.revents &&& pollIn ≠ 0) : e.fd ∈ readable n arr := by
  refine List.mem_map.2 ⟨e, List.mem_filter.2 ⟨?_, by simpa using hin⟩, rfl⟩
  apply List.mem_of_getElem? (i := i)
  rw [List.getElem?_take_of_lt hlt, hi]

theorem of_mem_used {n : Nat} {arr : List PollFd} (h : fd ∈ used n arr) :
    ∃ e ∈ arr, e.fd = fd ∧ fd ≠ -1 := by
  obtain ⟨e, he, rfl⟩ := List.mem_map.1 h
  obtain ⟨hmem, hused⟩ := List.mem_filter.1 he
  exact ⟨e, List.mem_of_mem_take hmem, rfl, by simpa using hused⟩

/-- The answer of `poll` starts a round. -/
theorem Inv.ready_poll (h : st.Inv lost) {answer : PollResult} (hscan : st.scan = none)
    (hzero : st.PollZeroes (.poll answer)) : (st.poll answer).Ready := by
  cases answer with
  | err e | timeout => exact ready_head hscan
  | ready revents =>
    refine ⟨?_, ?_, ?_⟩
    · intro _ _ j e _ hlt hj he hin
      obtain ⟨c, hc, hfd, -, -⟩ := writeRevents_entry hj
      refine ⟨?_, mem_readable hj hlt hin, List.not_mem_nil⟩
      rw [hfd]
      exact mem_used hc hlt (hfd ▸ he)
    · intro _ j e hlt hj he
      obtain ⟨c, hc, hfd, -, hrev⟩ := writeRevents_entry hj
      rw [hrev hlt, hzero j c hc hlt (by omega)]
      rfl
    · intro _ fd hfd
      obtain ⟨e, he, rfl, hused⟩ := of_mem_used hfd
      obtain ⟨j, hj⟩ := List.mem_iff_getElem?.1 he
      exact h.entry hj hused

/-- The scan goes on; the entries still to come that are used are as they were. -/
theorem Ready.next (h : st.Ready) (hscan : st.scan = some i) (hscan' : st'.scan = some (i + 1))
    (hn : st'.n = st.n) (hgiven : st'.given = st.given) (hreported : st'.reported = st.reported)
    (hfresh : st'.fresh = st.fresh)
    (harr : ∀ (j : Nat) e, i < j → st'.arr[j]? = some e → e.fd ≠ -1 → st.arr[j]? = some e) :
    st'.Ready := by
  refine ⟨?_, ?_, ?_⟩
  · intro k hk j e hkj hlt hj he hin
    obtain rfl := Option.some.inj (hscan'.symm.trans hk)
    rw [hn] at hlt
    rw [hgiven, hreported, hfresh]
    exact h.readable i hscan j e (by omega) hlt (harr j e (by omega) hj he) he hin
  all_goals
    intro h0
    rw [hscan'] at h0
    cases h0

/-- The scan accepts a connection at its first entry. Its descriptor was not open when `poll` was
    called, and its entry is not readable. -/
theorem Ready.taken (h : st.Ready) (hinv : st.Inv lost) (hscan : st.scan = some i)
    (htodo : st.todo i = .accept) (hfd : 0 ≤ fd) (hnew : st.opened fd = false) :
    (st.taken i fd).Ready := by
  obtain ⟨e0, hi, he0, -⟩ := todo_accept htodo
  obtain rfl := hinv.index_of_listen hi he0
  have hno : (st.taken 0 fd).scan ≠ some 0 := by simp [PollServer.taken]
  refine ⟨?_, fun h0 => absurd h0 hno, fun h0 => absurd h0 hno⟩
  intro k hk j e hkj hlt hj he hin
  obtain rfl : 1 = k := Option.some.inj hk
  have hstored : (store fd st.arr)[j]? = some e := hj
  obtain ⟨c, hc, hrev, rfl | ⟨-, hfree⟩⟩ := store_revents hstored
  · obtain ⟨hgiven, hreported, hfresh⟩ := h.readable 0 hscan j e (by omega) hlt hc he hin
    refine ⟨hgiven, hreported, ?_⟩
    show e.fd ∉ st.fresh ++ [fd]
    rw [List.mem_append, List.mem_singleton]
    rintro (hmem | rfl)
    · exact hfresh hmem
    · rw [h.opened hscan e.fd hgiven] at hnew
      cases hnew
  · exact absurd (hrev ▸ h.free hscan j c hlt hc hfree) hin

/-- **Every step keeps the readiness of the round**, while `poll` clears free entries. -/
theorem Ready.step (h : st.Ready) (hinv : st.Inv lost) {input : Input}
    (hzero : st.PollZeroes input) (hst : Step step st input st') : st'.Ready := by
  cases step_moves hst with
  | poll hscan => exact hinv.ready_poll hscan hzero
  | next hscan | read hscan =>
    exact h.next hscan rfl rfl rfl rfl rfl fun _ _ _ hj _ => hj
  | refused hscan =>
    refine h.next hscan rfl rfl rfl rfl rfl ?_
    intro j e _ hj he
    obtain ⟨c, hc, -, rfl | ⟨hfd, -⟩⟩ := store_revents hj
    · exact hc
    · exact absurd hfd he
  | taken hscan _ htodo hfd hnew => exact h.taken hinv hscan htodo hfd hnew
  | closed hscan =>
    refine h.next hscan rfl rfl rfl rfl rfl ?_
    intro j e hij hj _
    rwa [List.getElem?_set_ne (Nat.ne_of_lt hij)] at hj
  | done => exact ready_head rfl

/-- In a run whose `poll`s clear free entries, `recv` is called on a descriptor that the `poll` of
    this round was given and reported, and that has not been accepted since. -/
theorem recv_ready {is : List Input} (h0 : Started st)
    (h : Run (Guarded PollZeroes (Step step)) st is st') (hscan : st'.scan = some i)
    (hi : i < st'.n) (htodo : st'.todo i = .recv fd) :
    fd ∈ st'.given ∧ fd ∈ st'.reported ∧ fd ∉ st'.fresh := by
  obtain ⟨hinv0, hnone⟩ := inv_started h0
  have hkeep : ∀ s a t, ((∃ lost, s.Inv lost) ∧ s.Ready) → Guarded PollZeroes (Step step) s a t →
      (∃ lost, t.Inv lost) ∧ t.Ready := by
    rintro s a t ⟨⟨lost, hI⟩, hready⟩ ⟨hzero, hst⟩
    obtain ⟨lost', -, hI'⟩ := hI.step_any hst
    exact ⟨⟨lost', hI'⟩, hready.step hI hzero hst⟩
  obtain ⟨-, hready⟩ := h.invariant hkeep ⟨⟨∅, hinv0⟩, ready_head hnone⟩
  obtain ⟨e, hget, rfl, hused, -, hin⟩ := todo_recv htodo
  exact hready.readable i hscan i e (Nat.le_refl i) hi hget hused hin

end SystemCallLearn.Multiplex.PollServer

namespace SystemCallLearn.Multiplex

open SystemCallLearn.Posix SystemCallLearn.Lib

/-- **No read on stale readiness.** In every run of either server, `recv` is only called on a
    descriptor that the `select` or `poll` of the same round was given and reported readable, and
    that has not been accepted since. -/
theorem no_stale_recv :
    (∀ (st st' : SelectServer) (is : List SelectServer.Input) (i : Nat) (fd : Int),
      SelectServer.Started st →
      Run (Guarded SelectServer.SelectSubset (Step SelectServer.step)) st is st' →
      st'.scan = some i → i < SelectServer.num → st'.todo i = .recv fd →
      fd ∈ st'.given ∧ fd ∈ st'.rfds ∧ fd ∉ st'.fresh) ∧
    ∀ (st st' : PollServer) (is : List PollServer.Input) (i : Nat) (fd : Int),
      PollServer.Started st →
      Run (Guarded PollServer.PollZeroes (Step PollServer.step)) st is st' →
      st'.scan = some i → i < st'.n → st'.todo i = .recv fd →
      fd ∈ st'.given ∧ fd ∈ st'.reported ∧ fd ∉ st'.fresh := by
  constructor
  · intro st st' is i fd h0 h hscan _ htodo
    exact SelectServer.recv_ready h0 h hscan htodo
  · intro st st' is i fd h0 h hscan hi htodo
    exact PollServer.recv_ready h0 h hscan hi htodo

instance (st : SelectServer) (input : SelectServer.Input) : Decidable (st.SelectSubset input) :=
  match input with
  | .select (.ready rfds) => inferInstanceAs (Decidable (∀ fd ∈ rfds, fd ∈ st.gives))
  | .select (.err _) | .select .timeout | .entry _ _ => isTrue trivial

/-- A connection comes to `select_server.cc`, and the next `select` reports it. -/
theorem SelectServer.exists_recv :
    ∃ st st', Started st ∧ Run (Guarded SelectSubset (Step step)) st
        (round [3] (.ok 4) (.ok []) ++ [.select (.ready [4]), .entry (.err .eagain) (.ok [])]) st' ∧
      st'.scan = some 1 ∧ st'.todo 1 = .recv 4 := by
  have hmain : (main streams 2 goodSetup).toOption.isSome = true := by decide +kernel
  cases hst : main streams 2 goodSetup with
  | error e => simp [hst, Except.toOption] at hmain
  | ok st =>
    have hrun : ((main streams 2 goodSetup).toOption.any fun st =>
        (exec (fun s a => if SelectSubset s a then step s a else none) st
          (round [3] (.ok 4) (.ok []) ++
            [.select (.ready [4]), .entry (.err .eagain) (.ok [])])).any fun t =>
              decide (t.scan = some 1 ∧ t.todo 1 = .recv 4)) = true := by
      decide +kernel
    simp only [hst, Except.toOption, Option.any_some] at hrun
    obtain ⟨st', hst', hend⟩ := exists_of_any hrun
    exact ⟨st, st', ⟨streams, 2, goodSetup, hst⟩, exec_guarded hst', hend⟩

namespace PollServer

/-- Only the entry `i` is readable. -/
def only (i j : Nat) : UInt16 := if j = i then pollIn else 0

/-- A round in which only the connection in the entry `i` is readable, up to its `recv`. -/
theorem run_only {st : PollServer} {i : Nat} {e : PollFd} (hscan : st.scan = none)
    (hi : st.arr[i]? = some e) (he : 0 ≤ e.fd) (hlisten : e.fd ≠ st.listenSock) :
    ∃ is st', Run (Guarded PollZeroes (Step step)) st is st' ∧ st'.scan = some i ∧ i < st'.n ∧
      st'.todo i = .recv e.fd := by
  let t := st.poll (.ready (only i))
  have hused : e.fd ≠ -1 := by omega
  have hlt : i < t.n := by
    have hlt := lt_recount (n := st.n) (i := 0) hi hused
    rwa [Nat.zero_add] at hlt
  have hpoll : Guarded PollZeroes (Step step) st (.poll (.ready (only i))) t := by
    refine ⟨?_, by simp [Step, step, hscan, t]⟩
    intro j c hj _ hneg
    apply if_neg
    rintro rfl
    obtain rfl := Option.some.inj (hi.symm.trans hj)
    omega
  have hpass : Run (Step step) t (List.replicate i pass) { t with scan := some (0 + i) } := by
    apply run_pass i rfl (by omega)
    intro j _ hj
    unfold todo
    apply if_neg
    rintro ⟨-, hin⟩
    rw [List.getD_eq_getElem?_getD] at hin
    cases hget : t.arr[j]? with
    | none =>
      rw [hget] at hin
      exact hin rfl
    | some c =>
      obtain ⟨-, -, -, -, hrev⟩ := writeRevents_entry hget
      have hzero : only i j = 0 := if_neg (by omega)
      rw [hget, Option.getD_some, hrev (by show j < t.n; omega), hzero] at hin
      exact hin rfl
  have hguard : Run (Guarded PollZeroes (Step step)) _ _ _ :=
    hpass.guarded fun a ha _ => List.eq_of_mem_replicate ha ▸ trivial
  refine ⟨_, _, (Run.single hpoll).append hguard, by rw [Nat.zero_add], hlt, ?_⟩
  have hentry : t.arr.getD i freeFd = { e with revents := pollIn } := by
    show (writeRevents t.n (only i) st.arr).getD i freeFd = _
    rw [List.getD_eq_getElem?_getD, getElem?_writeRevents, hi]
    simp [hlt, only]
  show t.todo i = .recv e.fd
  have hlisten' : ¬ e.fd = t.listenSock := hlisten
  unfold todo
  rw [hentry]
  simp only
  rw [if_pos ⟨hused, by decide⟩, if_neg hlisten']

/-- A connection comes to `poll_server.cc`, and the next `poll` reports it. -/
theorem exists_recv :
    ∃ st is st' i, Started st ∧ Run (Guarded PollZeroes (Step step)) st is st' ∧
      st'.scan = some i ∧ i < st'.n ∧ st'.todo i = .recv 4 := by
  obtain ⟨st, h0, hfill⟩ := exists_filling
  obtain ⟨hnext, -⟩ := hfill.connect
  have hzero : st.PollZeroes (.poll (.ready onlyListen)) := by
    intro i e hi _ hneg
    apply if_neg
    rintro rfl
    obtain ⟨e0, hget, he0⟩ := hfill.inv.listen
    obtain rfl := Option.some.inj (hi.symm.trans hget)
    have h0 := hfill.inv.listenNonneg
    omega
  obtain ⟨is, hrun⟩ := run_connected PollZeroes hfill.inv hfill.scan hfill.nonneg
    (hfill.unused 4 (Int.le_refl 4)) hzero trivial fun _ => trivial
  -- the connection 4 is in an entry
  have hacc : 4 ∈ (st.connected 4).accepted := List.mem_append_right _ (List.mem_singleton_self 4)
  have hopen : (st.connected 4).opened 4 = true := by
    show Function.update st.opened 4 true 4 = true
    rw [Function.update_self]
  obtain ⟨i, ⟨e, hi, he⟩, -⟩ := hnext.inv.tableOk.stored 4 hacc hopen
  have hlisten : e.fd ≠ (st.connected 4).listenSock := by
    intro heq
    exact hnext.inv.notAccepted (heq ▸ he.symm ▸ hacc)
  obtain ⟨is', st', hrun', hend⟩ := run_only hnext.scan hi (by omega) hlisten
  exact ⟨st, is ++ is', st', i, h0, hrun.append hrun', he ▸ hend⟩

end PollServer

theorem no_stale_recv_both :
    (∃ st : SelectServer, st.scan = some 1 ∧ st.todo 1 = .recv 4 ∧ 4 ∈ st.given ∧ 4 ∈ st.rfds ∧
      4 ∉ st.fresh) ∧
    ∃ (st : PollServer) (i : Nat), st.scan = some i ∧ st.todo i = .recv 4 ∧ 4 ∈ st.given ∧
      4 ∈ st.reported ∧ 4 ∉ st.fresh := by
  obtain ⟨hselect, hpoll⟩ := no_stale_recv
  constructor
  · obtain ⟨st, st', h0, hrun, hscan, htodo⟩ := SelectServer.exists_recv
    exact ⟨st', hscan, htodo, hselect st st' _ 1 4 h0 hrun hscan (by decide) htodo⟩
  · obtain ⟨st, is, st', i, h0, hrun, hscan, hi, htodo⟩ := PollServer.exists_recv
    exact ⟨st', i, hscan, htodo, hpoll st st' is i 4 h0 hrun hscan hi htodo⟩

end SystemCallLearn.Multiplex
