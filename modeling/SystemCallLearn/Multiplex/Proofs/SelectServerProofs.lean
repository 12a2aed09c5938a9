import SystemCallLearn.Multiplex.SelectServer
import SystemCallLearn.Multiplex.Proofs.SockProofs
import SystemCallLearn.Lib.Lts

/-!
# The table of `select_server.cc`

The table holds the listening socket and the accepted connections that are still open, each in one
entry (`Inv.table`), whatever the calls answer. The listening socket is the first entry, so a
connection is accepted before the scan closes any: its descriptor is none of those that `select` was
given, and the rest of the scan leaves it alone (`Ready`).
-/

namespace SystemCallLearn.Multiplex.SelectServer

open SystemCallLearn.Posix SystemCallLearn.Lib

variable {st st' : SelectServer} {i : Nat} {fd : Int}

/-! ## The helpers -/

theorem freePos_some {fdArray : List Int} {pos : Nat} (h : freePos fdArray = some pos) :
    fdArray[pos]? = some (-1) ∧ pos ≠ 0 := by
  obtain ⟨k, hk, rfl⟩ := Option.map_eq_some_iff.1 h
  obtain ⟨hlt, hfree, -⟩ := List.findIdx?_eq_some_iff_getElem.1 hk
  have hget : (fdArray.drop 1)[k]? = some (-1) := by
    rw [List.getElem?_eq_getElem hlt]
    exact congrArg some (of_decide_eq_true hfree)
  rw [List.getElem?_drop, Nat.add_comm] at hget
  exact ⟨hget, Nat.succ_ne_zero k⟩

/-- It is the first one. -/
theorem freePos_le {fdArray : List Int} {pos j : Nat} (h : freePos fdArray = some pos) (hj : j ≠ 0)
    (hfree : fdArray[j]? = some (-1)) : pos ≤ j := by
  obtain ⟨k, hk, rfl⟩ := Option.map_eq_some_iff.1 h
  obtain ⟨_, _, hfirst⟩ := List.findIdx?_eq_some_iff_getElem.1 hk
  obtain ⟨m, rfl⟩ := Nat.exists_eq_succ_of_ne_zero hj
  by_contra hlt
  obtain ⟨hm, hget⟩ := List.getElem?_eq_some_iff.1 hfree
  have hused := hfirst m (by omega)
  simp only [List.getElem_drop, Nat.add_comm 1 m] at hused
  exact hused (decide_eq_true hget)

theorem freePos_none {fdArray : List Int} :
    freePos fdArray = none ↔ ∀ pos, pos ≠ 0 → fdArray[pos]? ≠ some (-1) := by
  unfold freePos
  rw [Option.map_eq_none_iff, List.findIdx?_eq_none_iff]
  constructor
  · intro h pos hpos hget
    obtain ⟨k, rfl⟩ := Nat.exists_eq_succ_of_ne_zero hpos
    have hmem : (-1 : Int) ∈ fdArray.drop 1 := by
      apply List.mem_of_getElem? (i := k)
      rw [List.getElem?_drop, Nat.add_comm]
      exact hget
    simpa using h _ hmem
  · intro h fd hmem
    obtain ⟨k, hk⟩ := List.mem_iff_getElem?.1 hmem
    rw [List.getElem?_drop, Nat.add_comm] at hk
    by_contra hfd
    have hneg : fd = -1 := by simpa using hfd
    exact h (k + 1) (Nat.succ_ne_zero k) (hneg ▸ hk)

/-! ## The tests of the scan -/

theorem todo_accept (h : st.todo i = .accept) :
    st.fdArray[i]? = some st.listenSock ∧ st.listenSock ≠ -1 := by
  unfold todo at h
  simp only at h
  split_ifs at h with hfree hready hlisten
  rw [hlisten] at hfree
  refine ⟨?_, hfree⟩
  rw [List.getD_eq_getElem?_getD] at hlisten
  cases hget : st.fdArray[i]? with
  | none =>
    rw [hget] at hlisten
    exact absurd hlisten.symm hfree
  | some fd =>
    rw [hget] at hlisten
    exact congrArg some hlisten

/-- The listening socket is ready. -/
theorem todo_eq_accept (h : st.fdArray[i]? = some st.listenSock) (hne : st.listenSock ≠ -1)
    (hready : st.listenSock ∈ st.rfds) : st.todo i = .accept := by
  unfold todo
  rw [List.getD_eq_getElem?_getD, h, Option.getD_some]
  simp only
  rw [if_neg hne, if_pos hready, if_pos trivial]

theorem todo_eq_next (h : ∀ fd ∈ st.fdArray[i]?, fd ∉ st.rfds) : st.todo i = .next := by
  unfold todo
  rw [List.getD_eq_getElem?_getD]
  cases hget : st.fdArray[i]? with
  | none => rfl
  | some fd =>
    have hnot := h fd (by rw [hget]; rfl)
    simp only [Option.getD_some]
    rw [if_neg hnot, ite_self]

theorem todo_recv (h : st.todo i = .recv fd) :
    st.fdArray[i]? = some fd ∧ fd ≠ -1 ∧ fd ≠ st.listenSock ∧ fd ∈ st.rfds := by
  unfold todo at h
  simp only at h
  split_ifs at h with hfree hready hlisten
  obtain rfl := Todo.recv.inj h
  refine ⟨?_, hfree, hlisten, hready⟩
  rw [List.getD_eq_getElem?_getD] at hfree ⊢
  cases hget : st.fdArray[i]? with
  | none =>
    rw [hget] at hfree
    exact absurd rfl hfree
  | some fd => rfl

theorem collect_mem {maxFd : Int} {rfds fds : List Int} :
    fd ∈ (collect maxFd rfds fds).2 ↔ fd ∈ rfds ∨ fd ∈ fds ∧ fd ≠ -1 := by
  induction fds generalizing maxFd rfds with
  | nil => simp [collect]
  | cons x rest ih =>
    unfold collect
    split_ifs with hx hmax
    · rw [ih, List.mem_cons]
      constructor
      · rintro (h | ⟨h, hne⟩)
        · exact .inl h
        · exact .inr ⟨.inr h, hne⟩
      · rintro (h | ⟨h | h, hne⟩)
        · exact .inl h
        · exact absurd (h.trans hx) hne
        · exact .inr ⟨h, hne⟩
    all_goals
      rw [ih, List.mem_append, List.mem_singleton, List.mem_cons]
      constructor
      · rintro ((h | rfl) | ⟨h, hne⟩)
        · exact .inl h
        · exact .inr ⟨.inl rfl, hx⟩
        · exact .inr ⟨.inr h, hne⟩
      · rintro (h | ⟨rfl | h, hne⟩)
        · exact .inl (.inl h)
        · exact .inl (.inr rfl)
        · exact .inr ⟨h, hne⟩

/-- `max_fd` is no smaller than any descriptor of the set. -/
theorem collect_le {maxFd : Int} {rfds fds : List Int} (h : ∀ fd ∈ rfds, fd ≤ maxFd) :
    ∀ fd ∈ (collect maxFd rfds fds).2, fd ≤ (collect maxFd rfds fds).1 := by
  induction fds generalizing maxFd rfds with
  | nil => simpa [collect] using h
  | cons x rest ih =>
    unfold collect
    split_ifs with hx hmax
    · exact ih h
    all_goals
      apply ih
      intro fd hfd
      rcases List.mem_append.1 hfd with hfd | hfd
      · have hle := h fd hfd
        omega
      · have heq := List.mem_singleton.1 hfd
        omega

/-- `select` is given every descriptor of the table. -/
theorem mem_gives : fd ∈ st.gives ↔ fd ∈ st.fdArray ∧ fd ≠ -1 := by
  have hle : ∀ fd ∈ (collect (st.fdArray.getD 0 (-1)) [] st.fdArray).2,
      fd ≤ (collect (st.fdArray.getD 0 (-1)) [] st.fdArray).1 := by
    apply collect_le
    intro fd hfd
    cases hfd
  unfold gives examined
  rw [List.mem_filter, collect_mem]
  simp only [List.not_mem_nil, false_or, decide_eq_true_eq]
  refine ⟨fun h => h.1, ?_⟩
  intro h
  exact ⟨h, Int.lt_add_one_iff.2 (hle fd (collect_mem.2 (.inr h)))⟩

/-! ## What a step can do -/

/-- The steps of the server, by what they do to the table. -/
inductive Moves (st : SelectServer) : Input → SelectServer → Prop where
  | select {answer} (hscan : st.scan = none) : Moves st (.select answer) (st.select answer)
  | next {i a r} (hscan : st.scan = some i) (hi : i < num) (htodo : st.todo i = .next) :
      Moves st (.entry a r) { st with scan := some (i + 1) }
  | refused {i e r} (hscan : st.scan = some i) (hi : i < num) (htodo : st.todo i = .accept) :
      Moves st (.entry (.err e) r) { st with scan := some (i + 1) }
  | placed {i fd r pos} (hscan : st.scan = some i) (hi : i < num) (htodo : st.todo i = .accept)
      (hfd : 0 ≤ fd) (hnew : st.opened fd = false) (hpos : freePos st.fdArray = some pos) :
      Moves st (.entry (.ok fd) r) { st with
        scan := some (i + 1)
        opened := Function.update st.opened fd true
        accepted := st.accepted ++ [fd]
        fresh := st.fresh ++ [fd]
        fdArray := st.fdArray.set pos fd }
  | full {i fd r} (hscan : st.scan = some i) (hi : i < num) (htodo : st.todo i = .accept)
      (hfd : 0 ≤ fd) (hnew : st.opened fd = false) (hpos : freePos st.fdArray = none) :
      Moves st (.entry (.ok fd) r) { st with
        scan := some (i + 1)
        accepted := st.accepted ++ [fd]
        fresh := st.fresh ++ [fd] }
  | read {i fd a b bs} (hscan : st.scan = some i) (hi : i < num) (htodo : st.todo i = .recv fd) :
      Moves st (.entry a (.ok (b :: bs))) { st with scan := some (i + 1) }
  | closed {i fd a r} (hscan : st.scan = some i) (hi : i < num) (htodo : st.todo i = .recv fd) :
      Moves st (.entry a r) { st with
        scan := some (i + 1)
        opened := st.opened.close fd
        fdArray := st.fdArray.set i (-1) }
  | done {i a r} (hscan : st.scan = some i) (hi : num ≤ i) :
      Moves st (.entry a r) { st with scan := none }

theorem acceptEntry_placed (st : SelectServer) {pos : Nat} (hfd : 0 ≤ fd)
    (hnew : st.opened fd = false) (hpos : freePos st.fdArray = some pos) :
    st.acceptEntry (.ok fd) = some { st with
      opened := Function.update st.opened fd true
      accepted := st.accepted ++ [fd]
      fresh := st.fresh ++ [fd]
      fdArray := st.fdArray.set pos fd } := by
  have hcreate : st.opened.create fd = some (Function.update st.opened fd true) :=
    if_pos ⟨hfd, hnew⟩
  simp only [acceptEntry, accept, hcreate, Option.map_some, if_pos hfd, hpos]

/-- A connection is refused, put into the table, or closed again. -/
theorem acceptEntry_cases {a : AcceptResult} (h : st.acceptEntry a = some st') :
    (∃ e, a = .err e ∧ st' = st) ∨
    (∃ fd pos, a = .ok fd ∧ 0 ≤ fd ∧ st.opened fd = false ∧ freePos st.fdArray = some pos ∧
      st' = { st with
        opened := Function.update st.opened fd true
        accepted := st.accepted ++ [fd]
        fresh := st.fresh ++ [fd]
        fdArray := st.fdArray.set pos fd }) ∨
    ∃ fd, a = .ok fd ∧ 0 ≤ fd ∧ st.opened fd = false ∧ freePos st.fdArray = none ∧
      st' = { st with
        accepted := st.accepted ++ [fd]
        fresh := st.fresh ++ [fd] } := by
  cases a with
  | err e =>
    simp only [acceptEntry, accept, show ¬ (0 : Int) ≤ -1 by omega, if_false,
      Option.some.injEq] at h
    exact .inl ⟨e, rfl, h.symm⟩
  | ok fd =>
    right
    unfold acceptEntry at h
    cases hacc : accept st.opened (.ok fd) with
    | none => simp [hacc] at h
    | some x =>
      obtain ⟨opened, hcreate, rfl⟩ := Option.map_eq_some_iff.1 hacc
      obtain ⟨hfd, hnew, rfl⟩ := create_eq_some hcreate
      simp only [hacc, if_pos hfd] at h
      cases hpos : freePos st.fdArray with
      | some pos =>
        simp only [hpos, Option.some.injEq] at h
        exact .inl ⟨fd, pos, rfl, hfd, hnew, rfl, h.symm⟩
      | none =>
        simp only [hpos, close_update st.opened hnew, Option.some.injEq] at h
        exact .inr ⟨fd, rfl, hfd, hnew, rfl, h.symm⟩

/-- **Inversion of a step.** -/
theorem step_moves {input : Input} (h : Step step st input st') : Moves st input st' := by
  cases input with
  | select answer =>
    cases hscan : st.scan with
    | some i => simp [Step, step, hscan] at h
    | none =>
      simp only [Step, step, hscan, Option.some.injEq] at h
      exact h ▸ .select hscan
  | entry a r =>
    cases hscan : st.scan with
    | none => simp [Step, step, hscan] at h
    | some i =>
      by_cases hi : i < num
      · have hsame : todo { st with scan := some (i + 1) } i = st.todo i := rfl
        simp only [Step, step, hscan, if_pos hi, hsame] at h
        cases htodo : st.todo i with
        | next =>
          simp only [htodo, Option.some.injEq] at h
          exact h ▸ .next hscan hi htodo
        | accept =>
          simp only [htodo] at h
          rcases acceptEntry_cases h with ⟨e, rfl, rfl⟩ | ⟨fd, pos, rfl, hfd, hnew, hpos, rfl⟩ |
            ⟨fd, rfl, hfd, hnew, hpos, rfl⟩
          · exact .refused hscan hi htodo
          · exact .placed hscan hi htodo hfd hnew hpos
          · exact .full hscan hi htodo hfd hnew hpos
        | recv fd =>
          simp only [htodo, Option.some.injEq] at h
          subst h
          cases r with
          | err e => exact .closed hscan hi htodo
          | ok bytes =>
            cases bytes with
            | nil => exact .closed hscan hi htodo
            | cons b bs => exact .read hscan hi htodo
      · simp only [Step, step, hscan, if_neg hi, Option.some.injEq] at h
        exact h ▸ .done hscan (Nat.le_of_not_lt hi)

/-! ## The table -/

/-- The descriptors that the server has to look after: the listening socket, and the accepted
    connections that are still open. -/
def live (st : SelectServer) : Set Int :=
  { fd | fd = st.listenSock ∨ fd ∈ st.accepted ∧ st.opened fd = true }

/-- The invariant of the table: it holds the descriptors to look after, each in one entry, and the
    listening socket in the first. -/
structure Inv (st : SelectServer) : Prop where
  listen : st.fdArray[0]? = some st.listenSock
  listenNonneg : 0 ≤ st.listenSock
  listenOpen : st.opened st.listenSock = true
  notAccepted : st.listenSock ∉ st.accepted
  table : Slots.Holds slotFd st.fdArray st.live

theorem Inv.index_of_listen (h : st.Inv) (hi : st.fdArray[i]? = some st.listenSock) : i = 0 := by
  have hne : st.listenSock ≠ -1 := by
    have h0 := h.listenNonneg
    omega
  exact Slots.index_unique h.table.nodup hi h.listen (slotFd_used hne) (slotFd_used hne)

/-- What is in the table is open. -/
theorem Inv.entry (h : st.Inv) (hi : st.fdArray[i]? = some fd) (hfd : fd ≠ -1) :
    st.opened fd = true ∧ (fd = st.listenSock ∨ fd ∈ st.accepted) := by
  rcases h.table.mem_of_slot hi (slotFd_used hfd) with rfl | ⟨hacc, hopen⟩
  · exact ⟨h.listenOpen, .inl rfl⟩
  · exact ⟨hopen, .inr hacc⟩

/-- A new connection is not one of the descriptors that the server looks after. -/
theorem Inv.not_live (h : st.Inv) (hnew : st.opened fd = false) : fd ∉ st.live := by
  rintro (heq | ⟨-, hopen⟩)
  · rw [heq, h.listenOpen] at hnew
    cases hnew
  · rw [hopen] at hnew
    cases hnew

/-- A step that leaves the table and the descriptors alone. -/
theorem Inv.frame (h : st.Inv) (harr : st'.fdArray = st.fdArray)
    (hlisten : st'.listenSock = st.listenSock) (hopened : st'.opened = st.opened)
    (hacc : st'.accepted = st.accepted) : st'.Inv := by
  have hlive : st'.live = st.live := by simp only [live, hlisten, hopened, hacc]
  refine ⟨?_, ?_, ?_, ?_, ?_⟩
  · rw [harr, hlisten]
    exact h.listen
  · rw [hlisten]
    exact h.listenNonneg
  · rw [hopened, hlisten]
    exact h.listenOpen
  · rw [hlisten, hacc]
    exact h.notAccepted
  · rw [harr, hlive]
    exact h.table

/-- A new connection gets an entry that was free. -/
theorem Inv.placed (h : st.Inv) {pos : Nat} (hfd : 0 ≤ fd) (hnew : st.opened fd = false)
    (hpos : freePos st.fdArray = some pos) :
    Inv { st with
      scan := some (i + 1)
      opened := Function.update st.opened fd true
      accepted := st.accepted ++ [fd]
      fresh := st.fresh ++ [fd]
      fdArray := st.fdArray.set pos fd } := by
  obtain ⟨hfree, hpos0⟩ := freePos_some hpos
  have hnotin := h.not_live hnew
  have hne : fd ≠ st.listenSock := fun heq => hnotin (.inl heq)
  refine ⟨?_, h.listenNonneg, ?_, ?_, ?_⟩
  · show (st.fdArray.set pos fd)[0]? = _
    rw [List.getElem?_set_ne hpos0]
    exact h.listen
  · show Function.update st.opened fd true st.listenSock = true
    rw [Function.update_of_ne hne.symm]
    exact h.listenOpen
  · simp only [List.mem_append, List.mem_singleton, not_or]
    exact ⟨h.notAccepted, hne.symm⟩
  · have hfill := h.table.fill hfree slotFd_free (slotFd_used (by omega)) hnotin
    apply hfill.congr
    intro k
    simp only [live, Set.mem_ofPred_eq, List.mem_append, List.mem_singleton, Set.mem_insert_iff,
      Function.update_apply]
    by_cases hk : k = fd
    · simp [hk]
    · simp [hk]

/-- A new connection is closed again. -/
theorem Inv.dropped (h : st.Inv) (hnew : st.opened fd = false) :
    Inv { st with
      scan := some (i + 1)
      accepted := st.accepted ++ [fd]
      fresh := st.fresh ++ [fd] } := by
  have hne : fd ≠ st.listenSock := fun heq => h.not_live hnew (.inl heq)
  refine ⟨h.listen, h.listenNonneg, h.listenOpen, ?_, h.table.congr ?_⟩
  · simp only [List.mem_append, List.mem_singleton, not_or]
    exact ⟨h.notAccepted, hne.symm⟩
  · intro k
    simp only [live, Set.mem_ofPred_eq, List.mem_append, List.mem_singleton]
    by_cases hk : k = fd
    · simp [hk, hnew]
    · simp [hk]

/-- The connection in an entry is closed and the entry is free again. -/
theorem Inv.closed (h : st.Inv) (htodo : st.todo i = .recv fd) :
    Inv { st with
      scan := some (i + 1)
      opened := st.opened.close fd
      fdArray := st.fdArray.set i (-1) } := by
  obtain ⟨hi, hfd, hlisten, -⟩ := todo_recv htodo
  have hi0 : i ≠ 0 := by
    rintro rfl
    exact hlisten (Option.some.inj (hi.symm.trans h.listen))
  refine ⟨?_, h.listenNonneg, ?_, h.notAccepted, ?_⟩
  · show (st.fdArray.set i (-1))[0]? = _
    rw [List.getElem?_set_ne hi0]
    exact h.listen
  · show Function.update st.opened fd false st.listenSock = true
    rw [Function.update_of_ne (Ne.symm hlisten)]
    exact h.listenOpen
  · have hclear := h.table.clear hi (slotFd_used hfd) slotFd_free
    apply hclear.congr
    intro k
    simp only [live, Fds.close, Set.mem_ofPred_eq, Set.mem_sdiff, Set.mem_singleton_iff,
      Function.update_apply]
    by_cases hk : k = fd
    · simp [hk, hlisten]
    · simp [hk]

/-- **Every step keeps the table**, whatever the calls answer. -/
theorem Inv.step (h : st.Inv) {input : Input} (hst : Step step st input st') : st'.Inv := by
  cases step_moves hst with
  | @select answer hscan => cases answer <;> exact h.frame rfl rfl rfl rfl
  | next | refused | read | done => exact h.frame rfl rfl rfl rfl
  | placed hscan hi htodo hfd hnew hpos => exact h.placed hfd hnew hpos
  | full hscan hi htodo hfd hnew hpos => exact h.dropped hnew
  | closed hscan hi htodo => exact h.closed htodo

/-- The table at the start holds the listening socket alone. -/
theorem inv_first {n : Nat} (hfd : 0 ≤ st.listenSock) (hn : n ≠ 0)
    (harr : st.fdArray = (List.replicate n (-1)).set 0 st.listenSock)
    (hopen : st.opened st.listenSock = true) (hacc : st.accepted = []) : st.Inv := by
  obtain ⟨m, rfl⟩ := Nat.exists_eq_succ_of_ne_zero hn
  have hempty : Slots.Holds slotFd (List.replicate (m + 1) (-1)) ∅ :=
    Slots.holds_empty fun x hx => by rw [List.eq_of_mem_replicate hx, slotFd_free]
  have hfill := hempty.fill (i := 0) (b := -1) rfl slotFd_free
    (slotFd_used (by omega : st.listenSock ≠ -1)) (Set.notMem_empty st.listenSock)
  refine ⟨?_, hfd, hopen, ?_, ?_⟩
  · rw [harr]
    rfl
  · rw [hacc]
    exact List.not_mem_nil
  · rw [harr]
    apply hfill.congr
    intro k
    simp [live, hacc]

theorem inv_started (h : Started st) : st.Inv ∧ st.scan = none := by
  obtain ⟨opened, argc, a, hmain⟩ := h
  unfold main at hmain
  cases hsetup : setup opened argc a with
  | error e =>
    rw [hsetup] at hmain
    cases hmain
  | ok x =>
    obtain ⟨opened', fd⟩ := x
    obtain ⟨hfd, hnew, rfl⟩ := setup_ok hsetup
    rw [hsetup] at hmain
    obtain rfl := Except.ok.inj hmain
    exact ⟨inv_first hfd (Nat.succ_ne_zero 127) rfl (Function.update_self _ _ _) rfl, rfl⟩

/-- **The run lemma.** -/
theorem inv_run {is : List Input} (h0 : Started st) (h : Run (Step step) st is st') : st'.Inv :=
  h.invariant (fun _ _ _ hI hst => hI.step hst) (inv_started h0).1

theorem step_listenSock {input : Input} (h : Step step st input st') :
    st'.listenSock = st.listenSock := by
  cases step_moves h with
  | @select answer hscan => cases answer <;> rfl
  | _ => rfl

/-- A connection accepted while every entry is taken is closed, and the table stays as it is. -/
theorem step_full {r : RecvResult} (hscan : st.scan = some i) (hi : i < num)
    (htodo : st.todo i = .accept) (hfull : ∀ pos, pos ≠ 0 → st.fdArray[pos]? ≠ some (-1))
    (h : Step step st (.entry (.ok fd) r) st') :
    st'.fdArray = st.fdArray ∧ st'.opened fd = false := by
  have hnone := freePos_none.2 hfull
  cases step_moves h with
  | next hscan' _ htodo' =>
    obtain rfl := Option.some.inj (hscan.symm.trans hscan')
    simp [htodo] at htodo'
  | placed _ _ _ _ _ hpos => simp [hnone] at hpos
  | full _ _ _ _ hnew _ => exact ⟨rfl, hnew⟩
  | read hscan' _ htodo' | closed hscan' _ htodo' =>
    obtain rfl := Option.some.inj (hscan.symm.trans hscan')
    simp [htodo] at htodo'
  | done hscan' hi' =>
    obtain rfl := Option.some.inj (hscan.symm.trans hscan')
    omega

/-- **The table of `select_server.cc`.** In every run, whatever the calls answer, the first entry is
    the listening socket, every other entry that is used is an accepted connection that is still
    open, no descriptor is in two entries, and every accepted descriptor that is still open is in
    the table. A connection accepted while every entry is taken is closed and leaves the table as it
    is. -/
theorem selectServer_table (st st' : SelectServer) (is : List Input) (h0 : Started st)
    (h : Run (Step step) st is st') :
    (st'.listenSock = st.listenSock ∧ st'.fdArray[0]? = some st'.listenSock) ∧
    (∀ (i : Nat) fd, i ≠ 0 → st'.fdArray[i]? = some fd → fd ≠ -1 →
      fd ∈ st'.accepted ∧ st'.opened fd = true) ∧
    (∀ (i j : Nat) fd, st'.fdArray[i]? = some fd → st'.fdArray[j]? = some fd → fd ≠ -1 → i = j) ∧
    (∀ fd ∈ st'.accepted, st'.opened fd = true → fd ∈ st'.fdArray) ∧
    ∀ i fd r st'', st'.scan = some i → i < num → st'.todo i = .accept →
      (∀ pos, pos ≠ 0 → st'.fdArray[pos]? ≠ some (-1)) →
      Step step st' (.entry (.ok fd) r) st'' →
      st''.fdArray = st'.fdArray ∧ st''.opened fd = false := by
  have hinv := inv_run h0 h
  have hlisten : st'.listenSock = st.listenSock :=
    h.invariant (I := fun t => t.listenSock = st.listenSock)
      (fun _ _ _ hI hst => (step_listenSock hst).trans hI) rfl
  refine ⟨⟨hlisten, hinv.listen⟩, ?_, ?_, ?_, ?_⟩
  · intro i fd hi hget hfd
    obtain ⟨hopen, heq | hacc⟩ := hinv.entry hget hfd
    · exact absurd (hinv.index_of_listen (heq ▸ hget)) hi
    · exact ⟨hacc, hopen⟩
  · intro i j fd hi hj hfd
    exact Slots.index_unique hinv.table.nodup hi hj (slotFd_used hfd) (slotFd_used hfd)
  · intro fd hacc hopen
    obtain ⟨i, x, hi, hx⟩ := Slots.mem_held.1 ((hinv.table.mem fd).2 (.inr ⟨hacc, hopen⟩))
    unfold slotFd at hx
    split_ifs at hx
    obtain rfl := Option.some.inj hx
    exact List.mem_of_getElem? hi
  · intro i fd r st'' hscan hi htodo hfull hst
    exact step_full hscan hi htodo hfull hst

/-- A whole round in which the calls of every entry would answer the same. -/
def round (rfds : List Int) (a : AcceptResult) (r : RecvResult) : List Input :=
  .select (.ready rfds) :: List.replicate (num + 1) (.entry a r)

/-- Connection 4 comes, connection 5 comes, 4 ends, and the number 4 comes again. -/
theorem selectServer_table_reuse :
    ∃ st st', Started st ∧
      Run (Step step) st (round [3] (.ok 4) (.ok []) ++ round [3] (.ok 5) (.ok []) ++
        round [4] (.ok 6) (.ok []) ++ round [3] (.ok 4) (.ok [])) st' ∧
      st'.scan = none ∧ st'.fdArray.take 4 = [3, 4, 5, -1] ∧
      (st'.fdArray[0]? = some st'.listenSock ∧ ∀ fd ∈ st'.accepted, st'.opened fd = true →
        fd ∈ st'.fdArray) := by
  have hmain : (main streams 2 goodSetup).toOption.isSome = true := by decide +kernel
  cases hst : main streams 2 goodSetup with
  | error e => simp [hst, Except.toOption] at hmain
  | ok st =>
    have hrun : ((main streams 2 goodSetup).toOption.any fun st =>
        (exec step st (round [3] (.ok 4) (.ok []) ++ round [3] (.ok 5) (.ok []) ++
          round [4] (.ok 6) (.ok []) ++ round [3] (.ok 4) (.ok []))).any fun t =>
            decide (t.scan = none ∧ t.fdArray.take 4 = [3, 4, 5, -1])) = true := by
      decide +kernel
    simp only [hst, Except.toOption, Option.any_some] at hrun
    obtain ⟨st', hst', hscan, htake⟩ := exec_exists step st _ hrun
    have h0 : Started st := ⟨streams, 2, goodSetup, hst⟩
    obtain ⟨⟨-, hlisten⟩, -, -, hall, -⟩ := selectServer_table st st' _ h0 hst'
    exact ⟨st, st', h0, hst', hscan, htake, hlisten, hall⟩

/-! ## Readiness -/

/-- The invariant of a round: the set that `select` left is within the set that it was given; before
    the scan everything in that set is open and nothing has been accepted; and what has been
    accepted in the round is not in the set that `select` left. -/
structure Ready (st : SelectServer) : Prop where
  subset : ∀ i, st.scan = some i → ∀ fd ∈ st.rfds, fd ∈ st.given
  opened : st.scan = some 0 → ∀ fd ∈ st.given, st.opened fd = true
  fresh : ∀ i, st.scan = some i → ∀ fd ∈ st.fresh, fd ∉ st.rfds

/-- `select` leaves a subset of the set that it is given. -/
def SelectSubset (st : SelectServer) : Input → Prop
  | .select (.ready rfds) => ∀ fd ∈ rfds, fd ∈ st.gives
  | _ => True

theorem ready_head (h : st.scan = none) : st.Ready := by
  have hno : ∀ {i}, st.scan ≠ some i := by simp [h]
  exact ⟨fun _ hi => absurd hi hno, fun h0 => absurd h0 hno, fun _ hi => absurd hi hno⟩

/-- The scan goes on and accepts nothing. -/
theorem Ready.next (h : st.Ready) (hscan : st.scan = some i) (hscan' : st'.scan = some (i + 1))
    (hrfds : st'.rfds = st.rfds) (hgiven : st'.given = st.given) (hfresh : st'.fresh = st.fresh) :
    st'.Ready := by
  refine ⟨?_, ?_, ?_⟩
  · intro j _ fd hfd
    rw [hrfds] at hfd
    rw [hgiven]
    exact h.subset i hscan fd hfd
  · intro h0
    rw [hscan'] at h0
    cases h0
  · intro j _ fd hfd
    rw [hfresh] at hfd
    rw [hrfds]
    exact h.fresh i hscan fd hfd

/-- The scan accepts a connection at its first entry: its descriptor was not open when `select` was
    called. -/
theorem Ready.accepted (h : st.Ready) (hinv : st.Inv) (hscan : st.scan = some i)
    (htodo : st.todo i = .accept) (hnew : st.opened fd = false)
    (hscan' : st'.scan = some (i + 1)) (hrfds : st'.rfds = st.rfds)
    (hgiven : st'.given = st.given) (hfresh : st'.fresh = st.fresh ++ [fd]) : st'.Ready := by
  obtain rfl := hinv.index_of_listen (todo_accept htodo).1
  refine ⟨?_, ?_, ?_⟩
  · intro j _ fd' hfd'
    rw [hrfds] at hfd'
    rw [hgiven]
    exact h.subset 0 hscan fd' hfd'
  · intro h0
    rw [hscan'] at h0
    cases h0
  · intro j _ fd' hfd'
    rw [hfresh] at hfd'
    rw [hrfds]
    rcases List.mem_append.1 hfd' with hold | hone
    · exact h.fresh 0 hscan fd' hold
    · obtain rfl := List.mem_singleton.1 hone
      intro hmem
      have hopen := h.opened hscan fd' (h.subset 0 hscan fd' hmem)
      rw [hopen] at hnew
      cases hnew

/-- **Every step keeps the readiness of the round**, while `select` leaves a subset. -/
theorem Ready.step (h : st.Ready) (hinv : st.Inv) {input : Input} (hsub : st.SelectSubset input)
    (hst : Step step st input st') : st'.Ready := by
  cases step_moves hst with
  | @select answer hscan =>
    cases answer with
    | ready rfds =>
      refine ⟨fun _ _ => hsub, ?_, fun _ _ fd hfd => by cases hfd⟩
      intro _ fd hfd
      obtain ⟨hmem, hne⟩ := mem_gives.1 hfd
      obtain ⟨j, hj⟩ := List.mem_iff_getElem?.1 hmem
      exact (hinv.entry hj hne).1
    | err e | timeout => exact ready_head hscan
  | next hscan | refused hscan | read hscan | closed hscan => exact h.next hscan rfl rfl rfl rfl
  | placed hscan _ htodo _ hnew | full hscan _ htodo _ hnew =>
    exact h.accepted hinv hscan htodo hnew rfl rfl rfl rfl
  | done hscan hi => exact ready_head rfl

/-- In a run whose `select`s leave subsets, `recv` is called on a descriptor that the `select` of
    this round was given and left in its set, and that has not been accepted since. -/
theorem recv_ready {is : List Input} (h0 : Started st)
    (h : Run (Guarded SelectSubset (Step step)) st is st') (hscan : st'.scan = some i)
    (htodo : st'.todo i = .recv fd) : fd ∈ st'.given ∧ fd ∈ st'.rfds ∧ fd ∉ st'.fresh := by
  obtain ⟨hinv0, hnone⟩ := inv_started h0
  obtain ⟨-, hready⟩ := h.invariant (I := fun t => t.Inv ∧ t.Ready)
    (fun _ _ _ hI hst => ⟨hI.1.step hst.2, hI.2.step hI.1 hst.1 hst.2⟩) ⟨hinv0, ready_head hnone⟩
  obtain ⟨-, -, -, hmem⟩ := todo_recv htodo
  exact ⟨hready.subset i hscan fd hmem, hmem, fun hfresh => hready.fresh i hscan fd hfresh hmem⟩

end SystemCallLearn.Multiplex.SelectServer
