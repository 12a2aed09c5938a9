import SystemCallLearn.Multiplex.PollServer
import SystemCallLearn.Multiplex.Proofs.SockProofs
import SystemCallLearn.Lib.Lts

/-!
# The table of `poll_server.cc`

A connection accepted while every entry is used is neither stored nor closed: it is lost. The
invariant is stated with the set of the connections lost so far (`Inv`). The table holds the other
descriptors to look after, each in one entry; a step loses a connection exactly when it accepts one
without room (`Room`); and what is lost stays open and out of the table for ever.
-/

namespace SystemCallLearn.Multiplex.PollServer

open SystemCallLearn.Posix SystemCallLearn.Lib

variable {st st' : PollServer} {i j : Nat} {fd : Int} {e : PollFd} {arr : List PollFd}

/-! ## The helpers -/

/-- The descriptor in an entry of the table. -/
def entryFd (e : PollFd) : Option Int := slotFd e.fd

/-- An entry in use asks for `POLLIN`. -/
def Asks (arr : List PollFd) : Prop :=
  ∀ (i : Nat) e, arr[i]? = some e → e.fd ≠ -1 → e.events &&& pollIn ≠ 0

theorem pollIn_asked (events : UInt16) : (events ||| pollIn) &&& pollIn ≠ 0 := by
  have hsame : (events ||| pollIn) &&& pollIn = pollIn := by
    apply UInt16.toBitVec_inj.1
    ext i
    simp only [UInt16.toBitVec_and, UInt16.toBitVec_or, BitVec.getElem_and, BitVec.getElem_or]
    grind
  rw [hsame]
  decide

theorem Asks.set (h : Asks arr) (he : e.fd ≠ -1 → e.events &&& pollIn ≠ 0) :
    Asks (arr.set j e) := by
  intro k c hk hc
  rw [List.getElem?_set] at hk
  split_ifs at hk with hjk hlt
  · obtain rfl := Option.some.inj hk
    exact he hc
  · exact h k c hk hc

/-- `store` writes the first entry that is not used, or nothing if there is none. -/
theorem store_cases (newsock : Int) (arr : List PollFd) :
    (∃ (j : Nat) (e : PollFd), arr[j]? = some e ∧ e.fd = -1 ∧
      store newsock arr = arr.set j { e with fd := newsock, events := e.events ||| pollIn }) ∨
    (∀ e ∈ arr, e.fd ≠ -1) ∧ store newsock arr = arr := by
  induction arr with
  | nil => exact .inr ⟨fun e he => (by cases he), rfl⟩
  | cons c rest ih =>
    unfold store
    by_cases hc : c.fd = -1
    · rw [if_pos hc]
      exact .inl ⟨0, c, rfl, hc, rfl⟩
    · rw [if_neg hc]
      rcases ih with ⟨j, e, hj, he, hstore⟩ | ⟨hall, hstore⟩
      · exact .inl ⟨j + 1, e, hj, he, by rw [hstore]; rfl⟩
      · refine .inr ⟨?_, by rw [hstore]⟩
        intro e he
        rcases List.mem_cons.1 he with rfl | he
        · exact hc
        · exact hall e he

theorem store_revents {newsock : Int} (h : (store newsock arr)[i]? = some e) :
    ∃ c, arr[i]? = some c ∧ e.revents = c.revents ∧ (e = c ∨ e.fd = newsock ∧ c.fd = -1) := by
  rcases store_cases newsock arr with ⟨j, c, hj, hc, hstore⟩ | ⟨-, hstore⟩
  · rw [hstore, List.getElem?_set] at h
    split_ifs at h with hji hlt
    · subst hji
      obtain rfl := Option.some.inj h
      exact ⟨c, hj, rfl, .inr ⟨rfl, hc⟩⟩
    · exact ⟨e, h, rfl, .inl rfl⟩
  · rw [hstore] at h
    exact ⟨e, h, rfl, .inl rfl⟩

/-- An entry that is used lies below the `n` of the next `poll`. -/
theorem lt_recount {n i j : Nat} (hj : arr[j]? = some e) (he : e.fd ≠ -1) :
    i + j < recount n i arr := by
  have hmono : ∀ (arr : List PollFd) n i, n ≤ recount n i arr := by
    intro arr
    induction arr with
    | nil => exact fun n i => Nat.le_refl n
    | cons c rest ih =>
      intro n i
      unfold recount
      refine Nat.le_trans ?_ (ih _ _)
      split_ifs <;> omega
  induction arr generalizing n i j with
  | nil => cases hj
  | cons c rest ih =>
    unfold recount
    cases j with
    | zero =>
      obtain rfl : c = e := by simpa using hj
      rw [if_pos he]
      have hle := hmono rest (max n (i + 1)) (i + 1)
      omega
    | succ j =>
      have hlt := ih (n := if c.fd ≠ -1 then max n (i + 1) else n) (i := i + 1) (j := j)
        (by simpa using hj)
      omega

theorem recount_le {n i m : Nat} (hn : n ≤ m) (hi : i + arr.length ≤ m) : recount n i arr ≤ m := by
  induction arr generalizing n i with
  | nil => exact hn
  | cons c rest ih =>
    rw [List.length_cons] at hi
    unfold recount
    refine ih ?_ (by omega)
    split_ifs <;> omega

theorem getElem?_writeRevents (n : Nat) (revents : Nat → UInt16) (arr : List PollFd) (i : Nat) :
    (writeRevents n revents arr)[i]? =
      arr[i]?.map fun e => if i < n then { e with revents := revents i } else e := by
  unfold writeRevents
  rw [List.getElem?_mapIdx]

/-- `poll` writes nothing but `revents`. -/
theorem writeRevents_entry {n : Nat} {revents : Nat → UInt16}
    (h : (writeRevents n revents arr)[i]? = some e) :
    ∃ c, arr[i]? = some c ∧ e.fd = c.fd ∧ e.events = c.events ∧
      (i < n → e.revents = revents i) := by
  rw [getElem?_writeRevents] at h
  obtain ⟨c, hc, rfl⟩ := Option.map_eq_some_iff.1 h
  refine ⟨c, hc, ?_⟩
  split_ifs with hi
  · exact ⟨rfl, rfl, fun _ => rfl⟩
  · exact ⟨rfl, rfl, fun h => absurd h hi⟩

theorem keys_writeRevents (n : Nat) (revents : Nat → UInt16) (arr : List PollFd) :
    (writeRevents n revents arr).map entryFd = arr.map entryFd := by
  refine List.ext_getElem? fun i => ?_
  rw [List.getElem?_map, List.getElem?_map, getElem?_writeRevents]
  cases arr[i]? with
  | none => rfl
  | some e =>
    by_cases hi : i < n
    · simp [hi, entryFd]
    · simp [hi]

/-! ## The tests of the scan -/

theorem todo_accept (h : st.todo i = .accept) :
    ∃ e, st.arr[i]? = some e ∧ e.fd = st.listenSock ∧ e.fd ≠ -1 := by
  unfold todo at h
  simp only at h
  split_ifs at h with hready hlisten
  obtain ⟨hused, -⟩ := hready
  rw [List.getD_eq_getElem?_getD] at hused hlisten
  cases hget : st.arr[i]? with
  | none =>
    rw [hget] at hused
    exact absurd rfl hused
  | some e =>
    rw [hget] at hused hlisten
    exact ⟨e, rfl, hlisten, hused⟩

theorem todo_recv (h : st.todo i = .recv fd) :
    ∃ e, st.arr[i]? = some e ∧ e.fd = fd ∧ fd ≠ -1 ∧ fd ≠ st.listenSock ∧
      e.revents &&& pollIn ≠ 0 := by
  unfold todo at h
  simp only at h
  split_ifs at h with hready hlisten
  obtain rfl := Todo.recv.inj h
  obtain ⟨hused, hin⟩ := hready
  rw [List.getD_eq_getElem?_getD] at hused hlisten hin ⊢
  cases hget : st.arr[i]? with
  | none =>
    rw [hget] at hused
    exact absurd rfl hused
  | some e =>
    rw [hget] at hused hlisten hin
    exact ⟨e, rfl, rfl, hused, hlisten, hin⟩

/-! ## What a step can do -/

/-- The steps of the server, by what they do to the table. -/
inductive Moves (st : PollServer) : Input → PollServer → Prop where
  | poll {answer} (hscan : st.scan = none) : Moves st (.poll answer) (st.poll answer)
  | next {i a r} (hscan : st.scan = some i) (hi : i < st.n) (htodo : st.todo i = .next) :
      Moves st (.entry a r) { st with scan := some (i + 1) }
  | refused {i e r} (hscan : st.scan = some i) (hi : i < st.n) (htodo : st.todo i = .accept) :
      Moves st (.entry (.err e) r) { st with scan := some (i + 1), arr := store (-1) st.arr }
  | taken {i fd r} (hscan : st.scan = some i) (hi : i < st.n) (htodo : st.todo i = .accept)
      (hfd : 0 ≤ fd) (hnew : st.opened fd = false) :
      Moves st (.entry (.ok fd) r) { st with
        scan := some (i + 1)
        opened := Function.update st.opened fd true
        arr := store fd st.arr
        accepted := st.accepted ++ [fd]
        fresh := st.fresh ++ [fd] }
  | read {i fd a b bs} (hscan : st.scan = some i) (hi : i < st.n) (htodo : st.todo i = .recv fd) :
      Moves st (.entry a (.ok (b :: bs))) { st with scan := some (i + 1) }
  | closed {i fd a r} (hscan : st.scan = some i) (hi : i < st.n) (htodo : st.todo i = .recv fd) :
      Moves st (.entry a r) { st with
        scan := some (i + 1)
        opened := st.opened.close fd
        arr := st.arr.set i { st.arr.getD i freeFd with fd := -1 } }
  | done {i a r} (hscan : st.scan = some i) (hi : st.n ≤ i) :
      Moves st (.entry a r) { st with scan := none }

theorem acceptEntry_moves {a : AcceptResult} {r : RecvResult} (hscan : st.scan = some i)
    (hi : i < st.n) (htodo : st.todo i = .accept)
    (h : acceptEntry { st with scan := some (i + 1) } a = some st') :
    Moves st (.entry a r) st' := by
  cases a with
  | err e =>
    simp only [acceptEntry, accept, show ¬ (0 : Int) ≤ -1 by omega, if_false, List.append_nil,
      Option.some.injEq] at h
    exact h ▸ .refused hscan hi htodo
  | ok fd =>
    unfold acceptEntry at h
    cases hacc : accept st.opened (.ok fd) with
    | none => simp [hacc] at h
    | some x =>
      obtain ⟨opened, hcreate, rfl⟩ := Option.map_eq_some_iff.1 hacc
      obtain ⟨hfd, hnew, rfl⟩ := create_eq_some hcreate
      simp only [hacc, if_pos hfd, Option.some.injEq] at h
      exact h ▸ .taken hscan hi htodo hfd hnew

/-- **Inversion of a step.** -/
theorem step_moves {input : Input} (h : Step step st input st') : Moves st input st' := by
  cases input with
  | poll answer =>
    cases hscan : st.scan with
    | some i => simp [Step, step, hscan] at h
    | none =>
      simp only [Step, step, hscan, Option.some.injEq] at h
      exact h ▸ .poll hscan
  | entry a r =>
    cases hscan : st.scan with
    | none => simp [Step, step, hscan] at h
    | some i =>
      by_cases hi : i < st.n
      · have hsame : todo { st with scan := some (i + 1) } i = st.todo i := rfl
        simp only [Step, step, hscan, if_pos hi, hsame] at h
        cases htodo : st.todo i with
        | next =>
          simp only [htodo, Option.some.injEq] at h
          exact h ▸ .next hscan hi htodo
        | accept =>
          simp only [htodo] at h
          exact acceptEntry_moves hscan hi htodo h
        | recv fd =>
          simp only [htodo, Option.some.injEq] at h
          subst h
          cases r with
          | err e => exact .closed hscan hi htodo
          | ok bytes =>
            cases bytes with
            | nil => exact .closed hscan hi htodo
            | cons b bs => exact .read hscan hi htodo
      · simp only [Step, step, hscan, if_neg hi, Option.some.injEq] at h
        exact h ▸ .done hscan (Nat.le_of_not_lt hi)

/-! ## The table -/

/-- The descriptors that the server has to look after: the listening socket, and the accepted
    connections that are still open. -/
def live (st : PollServer) : Set Int :=
  { fd | fd = st.listenSock ∨ fd ∈ st.accepted ∧ st.opened fd = true }

/-- The invariant of the table when the connections `lost` have been lost: it holds the other
    descriptors to look after, each in one entry that asks for `POLLIN`, and the listening socket in
    the first. -/
structure Inv (st : PollServer) (lost : Set Int) : Prop where
  length : st.arr.length = num
  bound : st.n ≤ num
  listen : ∃ e, st.arr[0]? = some e ∧ e.fd = st.listenSock
  listenNonneg : 0 ≤ st.listenSock
  listenOpen : st.opened st.listenSock = true
  notAccepted : st.listenSock ∉ st.accepted
  asks : Asks st.arr
  table : Slots.Holds entryFd st.arr (st.live \ lost)
  lostOpen : ∀ fd ∈ lost, 0 ≤ fd ∧ fd ∈ st.accepted ∧ st.opened fd = true

section Inv

variable {lost : Set Int}

theorem Inv.index_of_listen (h : st.Inv lost) (hi : st.arr[i]? = some e)
    (he : e.fd = st.listenSock) : i = 0 := by
  have hne : st.listenSock ≠ -1 := by
    have h0 := h.listenNonneg
    omega
  obtain ⟨e0, hget, he0⟩ := h.listen
  refine Slots.index_unique h.table.nodup hi hget (k := st.listenSock) ?_ ?_
  · rw [entryFd, he]
    exact slotFd_used hne
  · rw [entryFd, he0]
    exact slotFd_used hne

/-- What is in the table is open. -/
theorem Inv.entry (h : st.Inv lost) (hi : st.arr[i]? = some e) (he : e.fd ≠ -1) :
    st.opened e.fd = true := by
  rcases (h.table.mem_of_slot hi (slotFd_used he)).1 with heq | ⟨-, hopen⟩
  · rw [heq]
    exact h.listenOpen
  · exact hopen

/-- A step that keeps the descriptors, and the keys of the table. -/
theorem Inv.frame (h : st.Inv lost) (hkeys : st'.arr.map entryFd = st.arr.map entryFd)
    (hasks : Asks st'.arr) (hbound : st'.n ≤ num) (hlisten : st'.listenSock = st.listenSock)
    (hopened : st'.opened = st.opened) (hacc : st'.accepted = st.accepted) : st'.Inv lost := by
  have hlive : st'.live = st.live := by simp only [live, hlisten, hopened, hacc]
  have hlen : st'.arr.length = st.arr.length := by simpa using congrArg List.length hkeys
  refine ⟨hlen.trans h.length, hbound, ?_, ?_, ?_, ?_, hasks, ?_, ?_⟩
  · obtain ⟨e0, hget, he0⟩ := h.listen
    have hmap : (st'.arr.map entryFd)[0]? = some (entryFd e0) := by
      rw [hkeys, List.getElem?_map, hget]
      rfl
    rw [List.getElem?_map] at hmap
    obtain ⟨e1, hget1, hkey⟩ := Option.map_eq_some_iff.1 hmap
    refine ⟨e1, hget1, ?_⟩
    rw [hlisten, ← he0]
    unfold entryFd slotFd at hkey
    have h0 := h.listenNonneg
    split_ifs at hkey with h1 h2
    · omega
    · exact Option.some.inj hkey
  · rw [hlisten]
    exact h.listenNonneg
  · rw [hopened, hlisten]
    exact h.listenOpen
  · rw [hlisten, hacc]
    exact h.notAccepted
  · rw [hlive]
    exact h.table.of_keys hkeys
  · rw [hacc, hopened]
    exact h.lostOpen

/-- A new connection is not one of those that the server looks after. -/
theorem Inv.not_live (h : st.Inv lost) (hnew : st.opened fd = false) : fd ∉ st.live := by
  rintro (heq | ⟨-, hopen⟩)
  · rw [heq, h.listenOpen] at hnew
    cases hnew
  · rw [hopen] at hnew
    cases hnew

/-- The connection in an entry is closed and the entry is free again. -/
theorem Inv.closed (h : st.Inv lost) (htodo : st.todo i = .recv fd) :
    Inv { st with
      scan := some (i + 1)
      opened := st.opened.close fd
      arr := st.arr.set i { st.arr.getD i freeFd with fd := -1 } } lost := by
  obtain ⟨e, hi, rfl, hfd, hlisten, -⟩ := todo_recv htodo
  have hgetD : st.arr.getD i freeFd = e := by simp [List.getD_eq_getElem?_getD, hi]
  obtain ⟨e0, hget, he0⟩ := h.listen
  have hi0 : i ≠ 0 := by
    rintro rfl
    obtain rfl : e = e0 := Option.some.inj (hi.symm.trans hget)
    exact hlisten he0
  -- the descriptor is in the table, so it is none of those that were lost
  have hkept : e.fd ∉ lost := (h.table.mem_of_slot hi (slotFd_used hfd)).2
  rw [hgetD]
  refine ⟨?_, h.bound, ?_, h.listenNonneg, ?_, h.notAccepted, ?_, ?_, ?_⟩
  · show (st.arr.set i _).length = num
    rw [List.length_set]
    exact h.length
  · refine ⟨e0, ?_, he0⟩
    show (st.arr.set i _)[0]? = _
    rw [List.getElem?_set_ne hi0]
    exact hget
  · show Function.update st.opened e.fd false st.listenSock = true
    rw [Function.update_of_ne (Ne.symm hlisten)]
    exact h.listenOpen
  · exact h.asks.set fun hc => absurd rfl hc
  · have hnone : entryFd { e with fd := -1 } = none := slotFd_free
    apply (h.table.clear hi (slotFd_used hfd) hnone).congr
    intro k
    simp only [live, Fds.close, Set.mem_ofPred_eq, Set.mem_sdiff, Set.mem_singleton_iff,
      Function.update_apply]
    by_cases hk : k = e.fd
    · simp [hk, hlisten]
    · simp [hk]
  · intro k hk
    obtain ⟨hk0, hacc, hopen⟩ := h.lostOpen k hk
    refine ⟨hk0, hacc, ?_⟩
    show Function.update st.opened e.fd false k = true
    rw [Function.update_of_ne]
    · exact hopen
    · rintro rfl
      exact hkept hk

/-- Storing -1 changes no key. -/
theorem Inv.refused (h : st.Inv lost) :
    Inv { st with scan := some (i + 1), arr := store (-1) st.arr } lost := by
  rcases store_cases (-1) st.arr with ⟨j, e, hj, he, hstore⟩ | ⟨-, hstore⟩
  · rw [hstore]
    refine h.frame ?_ ?_ h.bound rfl rfl rfl
    · show (st.arr.set j _).map entryFd = st.arr.map entryFd
      rw [List.map_set]
      refine List.ext_getElem? fun k => ?_
      by_cases hjk : j = k
      · subst hjk
        rw [List.getElem?_set_self]
        · rw [List.getElem?_map, hj, Option.map_some]
          unfold entryFd
          rw [he]
        · rw [List.length_map]
          exact (List.getElem?_eq_some_iff.1 hj).1
      · rw [List.getElem?_set_ne hjk]
    · exact h.asks.set fun hc => absurd rfl hc
  · rw [hstore]
    exact h.frame rfl h.asks h.bound rfl rfl rfl

/-- The table after the accepted descriptor `fd` has been stored, if there is room. -/
def taken (st : PollServer) (i : Nat) (fd : Int) : PollServer :=
  { st with
    scan := some (i + 1)
    opened := Function.update st.opened fd true
    arr := store fd st.arr
    accepted := st.accepted ++ [fd]
    fresh := st.fresh ++ [fd] }

/-- With a free entry the new connection gets it. -/
theorem Inv.placed (h : st.Inv lost) (hfd : 0 ≤ fd) (hnew : st.opened fd = false)
    (hroom : ∃ e ∈ st.arr, e.fd = -1) : (st.taken i fd).Inv lost := by
  rcases store_cases fd st.arr with ⟨j, e, hj, he, hstore⟩ | ⟨hfull, -⟩
  · have hne : fd ≠ st.listenSock := fun heq => h.not_live hnew (.inl heq)
    have hnlost : fd ∉ lost := by
      intro hmem
      rw [(h.lostOpen fd hmem).2.2] at hnew
      cases hnew
    obtain ⟨e0, hget, he0⟩ := h.listen
    have hj0 : j ≠ 0 := by
      rintro rfl
      obtain rfl : e = e0 := Option.some.inj (hj.symm.trans hget)
      have h0 := h.listenNonneg
      omega
    unfold taken
    rw [hstore]
    refine ⟨?_, h.bound, ?_, h.listenNonneg, ?_, ?_, ?_, ?_, ?_⟩
    · show (st.arr.set j _).length = num
      rw [List.length_set]
      exact h.length
    · refine ⟨e0, ?_, he0⟩
      show (st.arr.set j _)[0]? = _
      rw [List.getElem?_set_ne hj0]
      exact hget
    · show Function.update st.opened fd true st.listenSock = true
      rw [Function.update_of_ne hne.symm]
      exact h.listenOpen
    · simp only [List.mem_append, List.mem_singleton, not_or]
      exact ⟨h.notAccepted, hne.symm⟩
    · exact h.asks.set fun _ => pollIn_asked e.events
    · have hnone : entryFd e = none := by rw [entryFd, he, slotFd_free]
      have hfill := h.table.fill hj hnone
        (a := { e with fd := fd, events := e.events ||| pollIn })
        (slotFd_used (by omega : fd ≠ -1)) (fun hmem => h.not_live hnew hmem.1)
      apply hfill.congr
      intro k
      simp only [live, Set.mem_ofPred_eq, List.mem_append, List.mem_singleton, Set.mem_insert_iff,
        Set.mem_sdiff, Function.update_apply]
      by_cases hk : k = fd
      · simp [hk, hnlost]
      · simp [hk]
    · intro k hk
      obtain ⟨hk0, hacc, hopen⟩ := h.lostOpen k hk
      refine ⟨hk0, List.mem_append_left _ hacc, ?_⟩
      show Function.update st.opened fd true k = true
      rw [Function.update_apply, hopen, ite_self]
  · obtain ⟨e, he, hfree⟩ := hroom
    exact absurd hfree (hfull e he)

/-- Without one it is lost. -/
theorem Inv.dropped (h : st.Inv lost) (hfd : 0 ≤ fd) (hnew : st.opened fd = false)
    (hfull : ∀ e ∈ st.arr, e.fd ≠ -1) : (st.taken i fd).Inv (insert fd lost) := by
  have hstore : store fd st.arr = st.arr := by
    rcases store_cases fd st.arr with ⟨j, e, hj, he, -⟩ | ⟨-, hstore⟩
    · exact absurd he (hfull e (List.mem_of_getElem? hj))
    · exact hstore
  have hne : fd ≠ st.listenSock := fun heq => h.not_live hnew (.inl heq)
  unfold taken
  rw [hstore]
  refine ⟨h.length, h.bound, h.listen, h.listenNonneg, ?_, ?_, h.asks, ?_, ?_⟩
  · show Function.update st.opened fd true st.listenSock = true
    rw [Function.update_of_ne hne.symm]
    exact h.listenOpen
  · simp only [List.mem_append, List.mem_singleton, not_or]
    exact ⟨h.notAccepted, hne.symm⟩
  · apply h.table.congr
    intro k
    simp only [live, Set.mem_ofPred_eq, List.mem_append, List.mem_singleton, Set.mem_sdiff,
      Set.mem_insert_iff, Function.update_apply]
    by_cases hk : k = fd
    · simp [hk, hne, hnew]
    · simp [hk]
  · intro k hk
    show 0 ≤ k ∧ k ∈ st.accepted ++ [fd] ∧ Function.update st.opened fd true k = true
    rw [Function.update_apply]
    by_cases hkfd : k = fd
    · simp [hkfd, hfd]
    · obtain ⟨hk0, hacc, hopen⟩ := h.lostOpen k (hk.resolve_left hkfd)
      simp [hk0, hacc, hopen]

theorem Inv.nfds_le (h : st.Inv lost) : st.nfds ≤ num :=
  recount_le h.bound (by rw [Nat.zero_add, h.length])

theorem Inv.poll (h : st.Inv lost) (answer : PollResult) : (st.poll answer).Inv lost := by
  have hwrite : ∀ n revents, Asks (writeRevents n revents st.arr) := by
    intro n revents j c hj hc
    obtain ⟨c', hj', hfd, hevents, -⟩ := writeRevents_entry hj
    rw [hevents]
    exact h.asks j c' hj' (hfd ▸ hc)
  cases answer with
  | err e => exact h.frame rfl h.asks h.nfds_le rfl rfl rfl
  | timeout => exact h.frame (keys_writeRevents _ _ _) (hwrite _ _) h.nfds_le rfl rfl rfl
  | ready revents => exact h.frame (keys_writeRevents _ _ _) (hwrite _ _) h.nfds_le rfl rfl rfl

/-- A connection that the scan accepts finds a free entry. -/
def Room (st : PollServer) : Input → Prop
  | .entry (.ok _) _ => ∀ i, st.scan = some i → i < st.n → st.todo i = .accept →
      ∃ e ∈ st.arr, e.fd = -1
  | _ => True

/-- **Every step keeps the table** while there is room, whatever the calls answer. -/
theorem Inv.step_room (h : st.Inv lost) {input : Input} (hroom : st.Room input)
    (hst : Step step st input st') : st'.Inv lost := by
  cases step_moves hst with
  | @poll answer hscan => exact h.poll answer
  | next | read | done => exact h.frame rfl h.asks h.bound rfl rfl rfl
  | refused => exact h.refused
  | taken hscan hi htodo hfd hnew => exact h.placed hfd hnew (hroom _ hscan hi htodo)
  | closed hscan hi htodo => exact h.closed htodo

theorem not_room {input : Input} (h : ¬ st.Room input) :
    ∃ i, st.scan = some i ∧ i < st.n ∧ st.todo i = .accept ∧ ∀ e ∈ st.arr, e.fd ≠ -1 := by
  unfold Room at h
  split at h
  · push Not at h
    exact h
  · exact absurd trivial h

/-- A step without room loses the connection that it accepts. -/
theorem Inv.step_full (h : st.Inv lost) {input : Input} (hroom : ¬ st.Room input)
    (hst : Step step st input st') : ∃ fd, st'.Inv (insert fd lost) := by
  obtain ⟨i, hscan, hi, htodo, hfull⟩ := not_room hroom
  cases step_moves hst with
  | poll | refused => exact absurd trivial hroom
  | @taken i fd r _ _ _ hfd hnew => exact ⟨fd, h.dropped hfd hnew hfull⟩
  | next hscan' _ htodo' | read hscan' _ htodo' | closed hscan' _ htodo' =>
    obtain rfl := Option.some.inj (hscan.symm.trans hscan')
    simp [htodo] at htodo'
  | done hscan' hi' =>
    obtain rfl := Option.some.inj (hscan.symm.trans hscan')
    omega

/-- What has been lost stays lost. -/
theorem Inv.step_any (h : st.Inv lost) {input : Input} (hst : Step step st input st') :
    ∃ lost', lost ⊆ lost' ∧ st'.Inv lost' := by
  by_cases hroom : st.Room input
  · exact ⟨lost, fun _ hk => hk, h.step_room hroom hst⟩
  · obtain ⟨fd, hinv⟩ := h.step_full hroom hst
    exact ⟨insert fd lost, fun _ hk => .inr hk, hinv⟩

/-- What the calls of `poll` rely on. -/
structure TableOk (st : PollServer) : Prop where
  stored : ∀ fd ∈ st.accepted, st.opened fd = true →
    ∃! i : Nat, ∃ e, st.arr[i]? = some e ∧ e.fd = fd
  polled : ∀ fd ∈ st.accepted, st.opened fd = true →
    ∀ (i : Nat) e, st.arr[i]? = some e → e.fd = fd → i < st.nfds ∧ e.events &&& pollIn ≠ 0
  bound : st.nfds ≤ num
  used : ∀ e ∈ st.arr, e.fd ≠ -1 → st.opened e.fd = true

theorem entryFd_eq_some : entryFd e = some fd ↔ e.fd = fd ∧ fd ≠ -1 := by
  unfold entryFd slotFd
  split_ifs with he
  · simp only [he, false_iff, not_and, not_not]
    exact Eq.symm
  · rw [Option.some_inj]
    constructor
    · rintro rfl
      exact ⟨rfl, he⟩
    · exact fun h => h.1

theorem Inv.tableOk (h : st.Inv ∅) : st.TableOk := by
  have hkey : ∀ fd ∈ st.accepted, st.opened fd = true → fd ∈ Slots.held entryFd st.arr :=
    fun fd hacc hopen => (h.table.mem fd).2 ⟨.inr ⟨hacc, hopen⟩, Set.notMem_empty fd⟩
  have hne : ∀ fd ∈ st.accepted, st.opened fd = true → fd ≠ -1 := by
    intro fd hacc hopen
    obtain ⟨i, e, -, he⟩ := Slots.mem_held.1 (hkey fd hacc hopen)
    exact (entryFd_eq_some.1 he).2
  refine ⟨?_, ?_, h.nfds_le, ?_⟩
  · intro fd hacc hopen
    obtain ⟨i, ⟨e, hi, he⟩, huniq⟩ := h.table.existsUnique ((h.table.mem fd).1 (hkey fd hacc hopen))
    refine ⟨i, ⟨e, hi, (entryFd_eq_some.1 he).1⟩, ?_⟩
    rintro j ⟨c, hj, hc⟩
    exact huniq j ⟨c, hj, entryFd_eq_some.2 ⟨hc, hne fd hacc hopen⟩⟩
  · rintro fd hacc hopen i e hi rfl
    have hused := hne e.fd hacc hopen
    refine ⟨?_, h.asks i e hi hused⟩
    have hlt := lt_recount (n := st.n) (i := 0) hi hused
    rwa [Nat.zero_add] at hlt
  · intro e he hused
    obtain ⟨i, hi⟩ := List.mem_iff_getElem?.1 he
    exact h.entry hi hused

/-- A lost connection is open and in no entry. -/
theorem Inv.not_tableOk (h : st.Inv lost) (hlost : fd ∈ lost) : ¬ st.TableOk := by
  intro hok
  obtain ⟨hfd, hacc, hopen⟩ := h.lostOpen fd hlost
  obtain ⟨i, ⟨e, hi, he⟩, -⟩ := hok.stored fd hacc hopen
  have hkey : entryFd e = some fd := entryFd_eq_some.2 ⟨he, by omega⟩
  exact (h.table.mem_of_slot hi hkey).2 hlost

theorem inv_started (h : Started st) : st.Inv ∅ ∧ st.scan = none := by
  obtain ⟨opened, argc, a, hmain⟩ := h
  unfold main at hmain
  cases hsetup : setup opened argc a with
  | error e =>
    rw [hsetup] at hmain
    cases hmain
  | ok x =>
    obtain ⟨opened', fd⟩ := x
    obtain ⟨hfd, hnew, rfl⟩ := setup_ok hsetup
    rw [hsetup] at hmain
    obtain rfl := Except.ok.inj hmain
    have hempty : Slots.Holds entryFd (List.replicate num freeFd) ∅ :=
      Slots.holds_empty fun x hx => by
        rw [List.eq_of_mem_replicate hx]
        rfl
    have hget : (List.replicate num freeFd)[0]? = some freeFd := rfl
    have hasks : Asks (List.replicate num freeFd) := by
      intro i e hi he
      exact absurd (List.eq_of_mem_replicate (List.mem_of_getElem? hi) ▸ rfl) he
    have hused : fd ≠ -1 := by omega
    have hfill := hempty.fill (a := { freeFd with fd := fd, events := freeFd.events ||| pollIn })
      hget rfl (slotFd_used hused) (Set.notMem_empty fd)
    refine ⟨⟨?_, ?_, ⟨_, rfl, rfl⟩, hfd, Function.update_self _ _ _, List.not_mem_nil,
      hasks.set fun _ => pollIn_asked _, hfill.congr ?_,
      fun k hk => absurd hk (Set.notMem_empty k)⟩, rfl⟩
    · show ((List.replicate num freeFd).set 0 _).length = num
      rw [List.length_set, List.length_replicate]
    · show 1 ≤ num
      unfold num
      omega
    · intro k
      simp [live]

end Inv

/-! ## Filling the table -/

/-- The number of entries that are not used. -/
def free (arr : List PollFd) : Nat := (arr.map entryFd).count none

theorem free_store (hfd : fd ≠ -1) : free (store fd arr) = free arr - 1 := by
  unfold free
  induction arr with
  | nil => rfl
  | cons c rest ih =>
    unfold store
    by_cases hc : c.fd = -1
    · have hnone : entryFd c = none := by rw [entryFd, hc, slotFd_free]
      have hsome : entryFd { c with fd := fd, events := c.events ||| pollIn } = some fd :=
        slotFd_used hfd
      rw [if_pos hc, List.map_cons, List.map_cons, hnone, hsome, List.count_cons_self,
        List.count_cons_of_ne (by simp), Nat.add_sub_cancel]
    · have hsome : entryFd c = some c.fd := slotFd_used hc
      rw [if_neg hc, List.map_cons, List.map_cons, hsome, List.count_cons_of_ne (by simp),
        List.count_cons_of_ne (by simp), ih]

theorem exists_free (h : 0 < free arr) : ∃ e ∈ arr, e.fd = -1 := by
  obtain ⟨e, he, hkey⟩ := List.mem_map.1 (List.count_pos_iff.1 h)
  refine ⟨e, he, ?_⟩
  by_contra hused
  rw [entryFd, slotFd_used hused] at hkey
  cases hkey

theorem used_of_full (h : free arr = 0) : ∀ e ∈ arr, e.fd ≠ -1 := by
  intro e he hfree
  refine List.count_eq_zero.1 h (List.mem_map.2 ⟨e, he, ?_⟩)
  rw [entryFd, hfree, slotFd_free]

/-- Only the listening socket is readable. -/
def onlyListen (i : Nat) : UInt16 := if i = 0 then pollIn else 0

/-- A round in which only the connection `fd` comes. -/
def connected (st : PollServer) (fd : Int) : PollServer :=
  { (st.poll (.ready onlyListen)).taken 0 fd with scan := none }

/-- A step at an entry that is not readable; if it were the listening socket, `accept` would fail.
    -/
def pass : Input := .entry (.err .eagain) (.ok [])

/-- The scan passes over `k` entries. -/
theorem run_pass (k : Nat) (hscan : st.scan = some i) (hk : i + k ≤ st.n)
    (htodo : ∀ j, i ≤ j → j < i + k → st.todo j = .next) :
    Run (Step step) st (List.replicate k pass) { st with scan := some (i + k) } := by
  have hsame : { st with scan := some (i + 0) } = st := by rw [Nat.add_zero, ← hscan]
  have hstep : ∀ j < k, Step step { st with scan := some (i + j) } pass
      { st with scan := some (i + (j + 1)) } := by
    intro j hj
    have hlt : i + j < st.n := by omega
    have hnext : todo { st with scan := some (i + (j + 1)) } (i + j) = .next :=
      htodo (i + j) (by omega) (by omega)
    simp [Step, step, pass, hlt, hnext, Nat.add_assoc]
  have hrun := Run.replicate (f := fun j => { st with scan := some (i + j) }) k hstep
  rwa [hsame] at hrun

/-- The scan passes over the entries from `i` on. -/
theorem run_skip (hscan : st.scan = some i) (hi : i ≤ st.n)
    (htodo : ∀ j, i ≤ j → j < st.n → st.todo j = .next) :
    Run (Step step) st (List.replicate (st.n - i + 1) pass) { st with scan := none } := by
  have hpass := run_pass (st.n - i) hscan (by omega) fun j hj hlt => htodo j hj (by omega)
  rw [List.replicate_succ']
  apply hpass.snoc
  simp [Step, step, pass, Nat.add_sub_cancel' hi]

theorem free_poll (revents : Nat → UInt16) : free (st.poll (.ready revents)).arr = free st.arr :=
  congrArg (List.count none) (keys_writeRevents _ _ _)

/-- In such a round the entry of the listening socket is readable. -/
theorem todo_listen {lost : Set Int} (h : st.Inv lost) :
    0 < st.nfds ∧ (st.poll (.ready onlyListen)).todo 0 = .accept := by
  obtain ⟨e, hget, he⟩ := h.listen
  have hused : e.fd ≠ -1 := by
    have h0 := h.listenNonneg
    omega
  have hpos : 0 < st.nfds := by
    have hlt := lt_recount (n := st.n) (i := 0) hget hused
    unfold nfds
    omega
  refine ⟨hpos, ?_⟩
  have hentry : (st.poll (.ready onlyListen)).arr.getD 0 freeFd = { e with revents := pollIn } := by
    show (writeRevents st.nfds onlyListen st.arr).getD 0 freeFd = _
    rw [List.getD_eq_getElem?_getD, getElem?_writeRevents, hget]
    simp [hpos, onlyListen]
  have hlisten : e.fd = (st.poll (.ready onlyListen)).listenSock := he
  unfold todo
  rw [hentry]
  simp only
  rw [if_pos ⟨hused, by decide⟩, if_pos hlisten]

/-- And no other entry is, the one of the new connection included. -/
theorem todo_rest (hi : i ≠ 0) (hlt : i < st.nfds) :
    ((st.poll (.ready onlyListen)).taken 0 fd).todo i = .next := by
  unfold todo
  apply if_neg
  rintro ⟨-, hin⟩
  rw [List.getD_eq_getElem?_getD] at hin
  cases he : ((st.poll (.ready onlyListen)).taken 0 fd).arr[i]? with
  | none =>
    rw [he] at hin
    exact hin rfl
  | some e =>
    have hstored : (store fd (st.poll (.ready onlyListen)).arr)[i]? = some e := he
    obtain ⟨c, hc, hrev, -⟩ := store_revents hstored
    obtain ⟨-, -, -, -, hzero⟩ := writeRevents_entry hc
    rw [he, Option.getD_some, hrev, hzero hlt, onlyListen, if_neg hi] at hin
    exact hin rfl

/-- **A round with one new connection**: `poll`, the step that accepts, and the rest of the scan. -/
theorem run_connected {lost : Set Int} (ok : PollServer → Input → Prop) (h : st.Inv lost)
    (hscan : st.scan = none) (hfd : 0 ≤ fd) (hnew : st.opened fd = false)
    (hpoll : ok st (.poll (.ready onlyListen)))
    (hacc : ok (st.poll (.ready onlyListen)) (.entry (.ok fd) (.ok [])))
    (hpass : ∀ s, ok s pass) :
    ∃ is, Run (Guarded ok (Step step)) st is (st.connected fd) := by
  obtain ⟨hpos, htodo⟩ := todo_listen h
  let t := st.poll (.ready onlyListen)
  have hfirst : Step step st (.poll (.ready onlyListen)) t := by simp [Step, step, hscan, t]
  have hsecond : Step step t (.entry (.ok fd) (.ok [])) (t.taken 0 fd) := by
    have hscan0 : t.scan = some 0 := rfl
    have hlt : 0 < t.n := hpos
    have hcreate : t.opened.create fd = some (Function.update t.opened fd true) :=
      if_pos ⟨hfd, hnew⟩
    have hsame : todo { t with scan := some (0 + 1) } 0 = .accept := htodo
    simp only [Step, step, hscan0, if_pos hlt, hsame, acceptEntry, accept, hcreate, Option.map_some,
      if_pos hfd]
    rfl
  have hrest : Run (Step step) (t.taken 0 fd) _ (st.connected fd) :=
    run_skip (i := 1) rfl hpos fun j hj hlt => todo_rest (by omega) hlt
  have hguard : Run (Guarded ok (Step step)) _ _ _ :=
    hrest.guarded fun a ha s => List.eq_of_mem_replicate ha ▸ hpass s
  exact ⟨_, ((Run.single ⟨hpoll, hfirst⟩).append (Run.single ⟨hacc, hsecond⟩)).append hguard⟩

/-- A server at the head of its loop that nothing has gone wrong with: `k` entries are free, `m`
    connections have been accepted, and no descriptor from `bound` on is open. -/
structure Filling (st : PollServer) (k m : Nat) (bound : Int) : Prop where
  inv : st.Inv ∅
  scan : st.scan = none
  free : free st.arr = k
  accepted : st.accepted.length = m
  nonneg : 0 ≤ bound
  unused : ∀ fd, bound ≤ fd → st.opened fd = false

theorem free_connected (hfd : fd ≠ -1) : free (st.connected fd).arr = free st.arr - 1 := by
  show free (store fd (st.poll (.ready onlyListen)).arr) = free st.arr - 1
  rw [free_store hfd, free_poll]

theorem Filling.connect {k m : Nat} {bound : Int} (h : st.Filling (k + 1) m bound) :
    (st.connected bound).Filling k (m + 1) (bound + 1) ∧
      ∃ is, Run (Guarded Room (Step step)) st is (st.connected bound) := by
  have hnew : st.opened bound = false := h.unused bound (Int.le_refl bound)
  have hroom : ∃ e ∈ (st.poll (.ready onlyListen)).arr, e.fd = -1 :=
    exists_free (by rw [free_poll, h.free]; omega)
  obtain ⟨is, hrun⟩ := run_connected Room h.inv h.scan h.nonneg hnew trivial
    (fun _ _ _ _ => hroom) fun _ => trivial
  have hne : bound ≠ -1 := by
    have h0 := h.nonneg
    omega
  refine ⟨⟨?_, rfl, ?_, ?_, ?_, ?_⟩, is, hrun⟩
  · exact hrun.invariant (I := fun s : PollServer => s.Inv ∅)
      (fun _ _ _ hI hst => hI.step_room hst.1 hst.2) h.inv
  · rw [free_connected hne, h.free, Nat.add_sub_cancel]
  · show (st.accepted ++ [bound]).length = m + 1
    rw [List.length_append, h.accepted, List.length_singleton]
  · have h0 := h.nonneg
    omega
  · intro fd hfd
    show Function.update st.opened bound true fd = false
    rw [Function.update_of_ne (by omega)]
    exact h.unused fd (by omega)

/-- The table is filled. -/
theorem Filling.fill {k m : Nat} {bound : Int} (h : st.Filling k m bound) :
    ∃ is st', Run (Guarded Room (Step step)) st is st' ∧ st'.Filling 0 (m + k) (bound + k) := by
  have hround : ∀ j < k, ∀ t : PollServer, t.Filling (k - j) (m + j) (bound + (j : Int)) →
      ∃ is u, Run (Guarded Room (Step step)) t is u ∧
        u.Filling (k - (j + 1)) (m + (j + 1)) (bound + ((j + 1 : Nat) : Int)) := by
    intro j hj t ht
    have hk : k - j = k - (j + 1) + 1 := by omega
    have hb : bound + (j : Int) + 1 = bound + ((j + 1 : Nat) : Int) := by omega
    rw [hk] at ht
    obtain ⟨hnext, is, hrun⟩ := ht.connect
    rw [hb] at hnext
    exact ⟨is, _, hrun, hnext⟩
  have hfill := exists_rounds (n := k) hround (by simpa using h)
  rwa [Nat.sub_self] at hfill

/-- The server of `streams` and `goodSetup`. -/
theorem exists_filling : ∃ st, Started st ∧ st.Filling 9999 0 4 := by
  have hmain : ∃ st, main streams 2 goodSetup = .ok st ∧
      st.opened = Function.update streams 3 true ∧ st.accepted = [] ∧
      st.arr = (List.replicate num freeFd).set 0
        { freeFd with fd := 3, events := freeFd.events ||| pollIn } := ⟨_, rfl, rfl, rfl, rfl⟩
  obtain ⟨st, hst, hopened, hacc, harr⟩ := hmain
  have h0 : Started st := ⟨streams, 2, goodSetup, hst⟩
  obtain ⟨hinv, hscan⟩ := inv_started h0
  refine ⟨st, h0, hinv, hscan, ?_, by rw [hacc]; rfl, by decide, ?_⟩
  · have hnum : num = 9999 + 1 := rfl
    rw [harr, hnum, List.replicate_succ, List.set_cons_zero, free, List.map_cons,
      List.map_replicate, List.count_cons_of_ne (by decide)]
    exact List.count_replicate_self
  · intro fd hfd
    rw [hopened, Function.update_of_ne (by omega)]
    simp only [streams, decide_eq_false_iff_not]
    omega

/-! ## Every run -/

/-- **The table of `poll_server.cc`.** In a run in which every accepted connection finds a free
    entry, the table is right at every call of `poll`, whatever the calls answer. A connection that
    is accepted while every entry is used is neither stored nor closed, and the table is wrong at
    every later call of `poll`. -/
theorem pollServer_table (st : PollServer) (h0 : Started st) :
    (∀ is st', Run (Guarded Room (Step step)) st is st' → st'.scan = none → st'.TableOk) ∧
    ∀ is t input t' is' st', Run (Step step) st is t → ¬ t.Room input → Step step t input t' →
      Run (Step step) t' is' st' → st'.scan = none → ¬ st'.TableOk := by
  obtain ⟨hinv0, -⟩ := inv_started h0
  have hany : ∀ s a t, (∃ lost, s.Inv lost) → Step step s a t → ∃ lost, t.Inv lost := by
    rintro s a t ⟨lost, hI⟩ hst
    obtain ⟨lost', -, hI'⟩ := hI.step_any hst
    exact ⟨lost', hI'⟩
  constructor
  · intro is st' h _
    have hinv : st'.Inv ∅ := h.invariant (I := fun s : PollServer => s.Inv ∅)
      (fun _ _ _ hI hst => hI.step_room hst.1 hst.2) hinv0
    exact hinv.tableOk
  · intro is t input t' is' st' h hroom hst h' _
    obtain ⟨lost, hinv⟩ := h.invariant hany ⟨∅, hinv0⟩
    obtain ⟨fd, hfull⟩ := hinv.step_full hroom hst
    have hkeep : ∀ s a u, (∃ lost, s.Inv lost ∧ fd ∈ lost) → Step step s a u →
        ∃ lost, u.Inv lost ∧ fd ∈ lost := by
      rintro s a u ⟨lost, hI, hmem⟩ hstep
      obtain ⟨lost', hsub, hI'⟩ := hI.step_any hstep
      exact ⟨lost', hI', hsub hmem⟩
    obtain ⟨lost', hinv', hmem⟩ :=
      h'.invariant hkeep ⟨insert fd lost, hfull, Set.mem_insert fd lost⟩
    exact hinv'.not_tableOk hmem

/-- After one connection the table is right. -/
theorem pollServer_table_one :
    ∃ st is st', Started st ∧ Run (Guarded Room (Step step)) st is st' ∧ st'.accepted.length = 1 ∧
      st'.TableOk := by
  obtain ⟨st, h0, hfill⟩ := exists_filling
  obtain ⟨hnext, is, hrun⟩ := hfill.connect
  exact ⟨st, is, _, h0, hrun, hnext.accepted, (pollServer_table st h0).1 is _ hrun hnext.scan⟩

/-- `NUM - 1` connections fill the table, and the next one is lost: it is open, and the table does
    not hold it when `poll` is called. -/
theorem pollServer_table_full :
    ∃ st is st', Started st ∧ Run (Step step) st is st' ∧ st'.scan = none ∧
      st'.accepted.length = num ∧ ¬ st'.TableOk := by
  obtain ⟨st, h0, hfill⟩ := exists_filling
  obtain ⟨is, t, hrun, hfull⟩ := hfill.fill
  have hnew : t.opened (4 + (9999 : Nat)) = false := hfull.unused _ (Int.le_refl _)
  obtain ⟨is', hrun'⟩ := run_connected (fun _ _ => True) hfull.inv hfull.scan hfull.nonneg hnew
    trivial trivial fun _ => trivial
  have hall : ∀ e ∈ (t.poll (.ready onlyListen)).arr, e.fd ≠ -1 :=
    used_of_full (by rw [free_poll, hfull.free])
  have hlost := (hfull.inv.poll (.ready onlyListen)).dropped (i := 0) hfull.nonneg hnew hall
  have hinv : (t.connected (4 + (9999 : Nat))).Inv (insert (4 + (9999 : Nat) : Int) ∅) :=
    hlost.frame rfl hlost.asks hlost.bound rfl rfl rfl
  have hboth := (hrun.mono fun _ _ _ h => h.2).append (hrun'.mono fun _ _ _ h => h.2)
  refine ⟨st, is ++ is', _, h0, hboth, rfl, ?_, ?_⟩
  · show (t.accepted ++ [_]).length = num
    rw [List.length_append, hfull.accepted]
    rfl
  · exact hinv.not_tableOk (Set.mem_insert _ _)

end SystemCallLearn.Multiplex.PollServer
