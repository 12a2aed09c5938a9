import SystemCallLearn.Multiplex.Select
import SystemCallLearn.Multiplex.Proofs.SelectServerProofs

/-!
# Which descriptors reach the `fd_set`

The table bounds the number of connections, not their descriptors. With the lowest descriptors taken
first, a connection gets one that is too large exactly when all that would fit are open, and once
it is in the table nothing keeps it from the `fd_set`. A full table does not help: three descriptors
are the standard streams, so it holds one that is too large already.
-/

namespace SystemCallLearn.Multiplex.Select

open SystemCallLearn.Posix SystemCallLearn.Lib

variable {st st' : Select} {i k pos : Nat} {fd : Int} {input : SelectServer.Input}

/-! ## What a step can do -/

/-- The steps of the server, by what they do to the table. -/
inductive Moves (st : Select) : SelectServer.Input → Select → Prop where
  | select {answer} (hscan : st.scan = none) : Moves st (.select answer) (st.select answer)
  | kept {i a r} (hscan : st.scan = some i) (hi : i < num)
      (hnone : st.todo i = .accept → ∃ e, a = .err e) :
      Moves st (.entry a r) { st with
        scan := some (i + 1)
        passed := st.passed ++ st.isset i }
  | placed {i fd r pos} (hscan : st.scan = some i) (hi : i < num) (htodo : st.todo i = .accept)
      (hfd : 0 ≤ fd) (hnew : st.opened fd = false)
      (hpos : SelectServer.freePos st.fdArray = some pos) :
      Moves st (.entry (.ok fd) r) { st with
        scan := some (i + 1)
        opened := Function.update st.opened fd true
        accepted := st.accepted ++ [fd]
        fresh := st.fresh ++ [fd]
        fdArray := st.fdArray.set pos fd
        passed := st.passed ++ st.isset i }
  | full {i fd r} (hscan : st.scan = some i) (hi : i < num) (htodo : st.todo i = .accept)
      (hfd : 0 ≤ fd) (hnew : st.opened fd = false)
      (hpos : SelectServer.freePos st.fdArray = none) :
      Moves st (.entry (.ok fd) r) { st with
        scan := some (i + 1)
        accepted := st.accepted ++ [fd]
        fresh := st.fresh ++ [fd]
        passed := st.passed ++ st.isset i }
  | closed {i fd a r} (hscan : st.scan = some i) (hi : i < num) (htodo : st.todo i = .recv fd) :
      Moves st (.entry a r) { st with
        scan := some (i + 1)
        opened := st.opened.close fd
        fdArray := st.fdArray.set i (-1)
        passed := st.passed ++ st.isset i }
  | done {i a r} (hscan : st.scan = some i) (hi : num ≤ i) :
      Moves st (.entry a r) { st with scan := none }

/-- **Inversion of a step.** -/
theorem step_moves (h : Step step st input st') : Moves st input st' := by
  cases input with
  | select answer =>
    cases hscan : st.scan with
    | some i => simp [Step, step, hscan] at h
    | none =>
      simp only [Step, step, hscan, Option.some.injEq] at h
      exact h ▸ .select hscan
  | entry a r =>
    cases hscan : st.scan with
    | none => simp [Step, step, hscan] at h
    | some i =>
      by_cases hi : i < num
      · have hsame : SelectServer.todo { st.toSelectServer with scan := some (i + 1) } i =
            st.todo i := rfl
        simp only [Step, step, hscan, if_pos hi, hsame] at h
        cases htodo : st.todo i with
        | next =>
          simp only [htodo, Option.some.injEq] at h
          exact h ▸ .kept hscan hi (by simp [htodo])
        | accept =>
          simp only [htodo] at h
          obtain ⟨server, hserver, rfl⟩ := Option.map_eq_some_iff.1 h
          rcases SelectServer.acceptEntry_cases hserver with ⟨e, rfl, rfl⟩ |
            ⟨fd, pos, rfl, hfd, hnew, hpos, rfl⟩ | ⟨fd, rfl, hfd, hnew, hpos, rfl⟩
          · exact .kept hscan hi fun _ => ⟨e, rfl⟩
          · exact .placed hscan hi htodo hfd hnew hpos
          · exact .full hscan hi htodo hfd hnew hpos
        | recv fd =>
          simp only [htodo, Option.some.injEq] at h
          subst h
          cases r with
          | err e => exact .kept hscan hi (by simp [htodo])
          | ok bytes =>
            cases bytes with
            | nil => exact .closed hscan hi htodo
            | cons b bs => exact .kept hscan hi (by simp [htodo])
      · simp only [Step, step, hscan, if_neg hi, Option.some.injEq] at h
        exact h ▸ .done hscan (Nat.le_of_not_lt hi)

/-! ## The table -/

/-- The invariant: the table is kept as in `select_server.cc`, and the standard streams are open and
    not in it. -/
structure Inv (st : Select) : Prop where
  table : st.toSelectServer.Inv
  length : st.fdArray.length = num
  streams : ∀ k, 0 ≤ k → k < 3 → st.opened k = true ∧ k ≠ st.listenSock ∧ k ∉ st.accepted

theorem Inv.listen_ne (h : st.Inv) : st.listenSock ≠ -1 := by
  have hnonneg := h.table.listenNonneg
  omega

/-- **Every step keeps the invariant**, whatever the calls answer. -/
theorem Inv.step (h : st.Inv) (hst : Step step st input st') : st'.Inv := by
  cases step_moves hst with
  | @select answer hscan =>
    cases answer <;> exact ⟨h.table.frame rfl rfl rfl rfl, h.length, h.streams⟩
  | kept hscan => exact ⟨h.table.frame rfl rfl rfl rfl, h.length, h.streams⟩
  | done hscan hi => exact ⟨h.table.frame rfl rfl rfl rfl, h.length, h.streams⟩
  | @placed i fd r pos hscan hi htodo hfd hnew hpos =>
    refine ⟨h.table.placed hfd hnew hpos, by simpa using h.length, fun k hk0 hk3 => ?_⟩
    obtain ⟨hopen, hlisten, hacc⟩ := h.streams k hk0 hk3
    have hne := ne_of_open hopen hnew
    refine ⟨?_, hlisten, ?_⟩
    · show Function.update st.opened fd true k = true
      rwa [Function.update_of_ne hne]
    · simp only [List.mem_append, List.mem_singleton, not_or]
      exact ⟨hacc, hne⟩
  | @full i fd r hscan hi htodo hfd hnew hpos =>
    refine ⟨h.table.dropped hnew, h.length, fun k hk0 hk3 => ?_⟩
    obtain ⟨hopen, hlisten, hacc⟩ := h.streams k hk0 hk3
    refine ⟨hopen, hlisten, ?_⟩
    simp only [List.mem_append, List.mem_singleton, not_or]
    exact ⟨hacc, ne_of_open hopen hnew⟩
  | @closed i fd a r hscan hi htodo =>
    refine ⟨h.table.closed htodo, by simpa using h.length, fun k hk0 hk3 => ?_⟩
    obtain ⟨hopen, hlisten, hacc⟩ := h.streams k hk0 hk3
    obtain ⟨hget, hused, -, -⟩ := SelectServer.todo_recv htodo
    have hne : k ≠ fd := by
      rintro rfl
      rcases (h.table.entry hget hused).2 with heq | hmem
      · exact hlisten heq
      · exact hacc hmem
    refine ⟨?_, hlisten, hacc⟩
    show Function.update st.opened fd false k = true
    rwa [Function.update_of_ne hne]

/-- `main` enters its loop with the listening socket alone in the table. -/
theorem main_ok {opened : Fds} {argc : Nat} {a : SetupAnswers} (h : main opened argc a = .ok st) :
    0 ≤ st.listenSock ∧ opened st.listenSock = false ∧ st.scan = none ∧ st.passed = [] ∧
      st.opened = Function.update opened st.listenSock true ∧ st.accepted = [] ∧
      st.fdArray = (List.replicate num (-1)).set 0 st.listenSock := by
  unfold main at h
  cases hsetup : setup opened argc a with
  | error e =>
    rw [hsetup] at h
    cases h
  | ok x =>
    obtain ⟨opened', fd⟩ := x
    obtain ⟨hfd, hnew, rfl⟩ := setup_ok hsetup
    rw [hsetup] at h
    obtain rfl := Except.ok.inj h
    exact ⟨hfd, hnew, rfl, rfl, rfl, rfl, rfl⟩

theorem inv_main {opened : Fds} {argc : Nat} {a : SetupAnswers}
    (hstd : ∀ k, 0 ≤ k → k < 3 → opened k = true) (h : main opened argc a = .ok st) : st.Inv := by
  obtain ⟨hfd, hnew, -, -, hopened, hacc, harr⟩ := main_ok h
  refine ⟨SelectServer.inv_first hfd (by decide : num ≠ 0) harr ?_ hacc, ?_, ?_⟩
  · rw [hopened]
    exact Function.update_self _ _ _
  · rw [harr, List.length_set, List.length_replicate]
  · intro k hk0 hk3
    have hopen := hstd k hk0 hk3
    have hne := ne_of_open hopen hnew
    refine ⟨?_, hne, ?_⟩
    · rw [hopened, Function.update_of_ne hne]
      exact hopen
    · rw [hacc]
      exact List.not_mem_nil

/-! ## The descriptors passed -/

/-- A descriptor that an `fd_set` has a bit for. -/
def InSet (fd : Int) : Prop := 0 ≤ fd ∧ fd < num

/-- `accept` is called in the next step. -/
def Accepts (st : Select) : Prop := ∃ i, st.scan = some i ∧ i < num ∧ st.todo i = .accept

/-- `accept` returns the lowest descriptor that is not open. -/
def LowestFree (st : Select) : SelectServer.Input → Prop
  | .entry (.ok fd) _ => st.Accepts → ∀ k, 0 ≤ k → k < fd → st.opened k = true
  | _ => True

/-- There is room in the `fd_set`: for the listening socket when `select` is called, and for one
    more descriptor when `accept` returns a connection. -/
def Room (st : Select) : SelectServer.Input → Prop
  | .select _ => st.listenSock < num
  | .entry (.ok _) _ => st.Accepts → ∃ k, InSet k ∧ st.opened k = false
  | .entry (.err _) _ => True

theorem mem_isset : fd ∈ st.isset i ↔ st.fdArray[i]? = some fd ∧ fd ≠ -1 := by
  unfold isset
  rw [List.getD_eq_getElem?_getD]
  cases hget : st.fdArray[i]? with
  | none => simp
  | some x =>
    simp only [Option.getD_some, Option.some.injEq]
    split_ifs with hx
    · simp only [List.not_mem_nil, false_iff, not_and, not_not]
      rintro rfl
      exact hx
    · rw [List.mem_singleton]
      constructor
      · rintro rfl
        exact ⟨rfl, hx⟩
      · rintro ⟨rfl, -⟩
        rfl

theorem mem_sets : fd ∈ st.sets.2 ↔ (fd ∈ st.fdArray ∧ fd ≠ -1) ∨ fd = st.listenSock := by
  have hsets : st.sets.2 =
    (SelectServer.collect (st.fdArray.getD 0 (-1)) [] st.fdArray).2 ++ [st.listenSock] := rfl
  rw [hsets, List.mem_append, SelectServer.collect_mem, List.mem_singleton]
  simp

theorem select_passed (st : Select) (answer : SelectServer.SelectResult) :
    (st.select answer).passed = st.passed ++ st.sets.2 ∧
      (st.select answer).fdArray = st.fdArray ∧ (st.select answer).listenSock = st.listenSock := by
  cases answer <;> exact ⟨rfl, rfl, rfl⟩

/-! ## With room -/

/-- What has been passed has a bit, and so has what is in the table; for the listening socket that
    is known from the first `select` on. -/
structure Fits (st : Select) : Prop where
  passed : ∀ fd ∈ st.passed, InSet fd
  entries : ∀ fd ∈ st.fdArray, fd ≠ -1 → fd ≠ st.listenSock → InSet fd
  listen : st.scan ≠ none → InSet st.listenSock

theorem Fits.isset (h : st.Fits) (hscan : st.scan = some i) :
    ∀ fd ∈ st.passed ++ st.isset i, InSet fd := by
  intro fd hfd
  rcases List.mem_append.1 hfd with hfd | hfd
  · exact h.passed fd hfd
  · obtain ⟨hget, hne⟩ := mem_isset.1 hfd
    by_cases hlisten : fd = st.listenSock
    · rw [hlisten]
      exact h.listen (by simp [hscan])
    · exact h.entries fd (List.mem_of_getElem? hget) hne hlisten

/-- The lowest free descriptor has a bit if any free one has. -/
theorem inSet_of_room (hlow : ∀ k, 0 ≤ k → k < fd → st.opened k = true)
    (hroom : ∃ k, InSet k ∧ st.opened k = false) (hfd : 0 ≤ fd) : InSet fd := by
  obtain ⟨k, ⟨hk0, hk⟩, hfree⟩ := hroom
  refine ⟨hfd, ?_⟩
  by_contra hge
  have hopen := hlow k hk0 (by omega)
  rw [hopen] at hfree
  cases hfree

/-- **Every step with room passes descriptors that have a bit.** -/
theorem Fits.step (h : st.Fits) (hinv : st.Inv) (hroom : st.Room input) (hlow : st.LowestFree input)
    (hst : Step step st input st') : st'.Fits := by
  cases step_moves hst with
  | @select answer hscan =>
    have hlisten : InSet st.listenSock := ⟨hinv.table.listenNonneg, hroom⟩
    obtain ⟨hpassed, harr, hsock⟩ := select_passed st answer
    refine ⟨?_, ?_, ?_⟩
    · rw [hpassed]
      intro fd hfd
      rcases List.mem_append.1 hfd with hfd | hfd
      · exact h.passed fd hfd
      · rcases mem_sets.1 hfd with ⟨hmem, hne⟩ | rfl
        · by_cases heq : fd = st.listenSock
          · rw [heq]
            exact hlisten
          · exact h.entries fd hmem hne heq
        · exact hlisten
    · rw [harr, hsock]
      exact h.entries
    · rw [hsock]
      exact fun _ => hlisten
  | kept hscan =>
    exact ⟨h.isset hscan, h.entries, fun _ => h.listen (by simp [hscan])⟩
  | @placed i fd r pos hscan hi htodo hfd hnew hpos =>
    have hacc : st.Accepts := ⟨i, hscan, hi, htodo⟩
    have hin : InSet fd := inSet_of_room (hlow hacc) (hroom hacc) hfd
    refine ⟨h.isset hscan, ?_, fun _ => h.listen (by simp [hscan])⟩
    intro fd' hmem hne hlisten
    rcases List.mem_or_eq_of_mem_set hmem with hold | rfl
    · exact h.entries fd' hold hne hlisten
    · exact hin
  | full hscan hi =>
    exact ⟨h.isset hscan, h.entries, fun _ => h.listen (by simp [hscan])⟩
  | closed hscan hi =>
    refine ⟨h.isset hscan, ?_, fun _ => h.listen (by simp [hscan])⟩
    intro fd' hmem hne hlisten
    rcases List.mem_or_eq_of_mem_set hmem with hold | rfl
    · exact h.entries fd' hold hne hlisten
    · exact absurd rfl hne
  | done hscan hi => exact ⟨h.passed, h.entries, fun hne => absurd rfl hne⟩

/-! ## Without room -/

/-- A descriptor without a bit has been passed, or is in an entry that the scan is still to
    reach. -/
inductive Doomed (st : Select) : Prop where
  | passed {fd : Int} (hmem : fd ∈ st.passed) (hfd : ¬ InSet fd)
  | ahead {i pos : Nat} {fd : Int} (hscan : st.scan = some i) (hle : i ≤ pos)
      (hget : st.fdArray[pos]? = some fd) (hne : fd ≠ -1) (hfd : ¬ InSet fd)

/-- The scan reaches the entry, or comes nearer to it. -/
theorem doomed_entry (hscan : st'.scan = some (i + 1))
    (hpassed : st'.passed = st.passed ++ st.isset i) (hle : i ≤ pos)
    (hget : st.fdArray[pos]? = some fd) (hne : fd ≠ -1) (hfd : ¬ InSet fd)
    (hkeep : i < pos → st'.fdArray[pos]? = some fd) :
    st'.Doomed := by
  by_cases heq : i = pos
  · subst heq
    refine .passed ?_ hfd
    rw [hpassed]
    exact List.mem_append_right _ (mem_isset.2 ⟨hget, hne⟩)
  · exact .ahead hscan (by omega) (hkeep (by omega)) hne hfd

theorem Doomed.step (h : st.Doomed) (hinv : st.Inv) (hst : Step step st input st') :
    st'.Doomed := by
  cases h with
  | @passed fd hmem hfd =>
    refine .passed ?_ hfd
    cases step_moves hst with
    | @select answer hscan =>
      rw [(select_passed st answer).1]
      exact List.mem_append_left _ hmem
    | kept | placed | full | closed => exact List.mem_append_left _ hmem
    | done => exact hmem
  | @ahead i pos fd hscan hle hget hne hfd =>
    cases step_moves hst with
    | select hnone =>
      rw [hscan] at hnone
      cases hnone
    | @kept j a r hscan' =>
      obtain rfl : i = j := Option.some.inj (hscan.symm.trans hscan')
      exact doomed_entry rfl rfl hle hget hne hfd fun _ => hget
    | @placed j fd' r pos' hscan' hi htodo hfd' hnew hpos =>
      obtain rfl : i = j := Option.some.inj (hscan.symm.trans hscan')
      refine doomed_entry rfl rfl hle hget hne hfd fun _ => ?_
      -- the entry taken was free
      have hne' : pos' ≠ pos := by
        rintro rfl
        exact hne (Option.some.inj (hget.symm.trans (SelectServer.freePos_some hpos).1))
      show (st.fdArray.set pos' fd')[pos]? = _
      rw [List.getElem?_set_ne hne']
      exact hget
    | @full j fd' r hscan' hi htodo hfd' hnew hpos =>
      obtain rfl : i = j := Option.some.inj (hscan.symm.trans hscan')
      exact doomed_entry rfl rfl hle hget hne hfd fun _ => hget
    | @closed j fd' a r hscan' hi htodo =>
      obtain rfl : i = j := Option.some.inj (hscan.symm.trans hscan')
      refine doomed_entry rfl rfl hle hget hne hfd fun hlt => ?_
      show (st.fdArray.set i (-1))[pos]? = _
      rw [List.getElem?_set_ne (Nat.ne_of_lt hlt)]
      exact hget
    | @done j a r hscan' hi =>
      obtain rfl : i = j := Option.some.inj (hscan.symm.trans hscan')
      have hlt := (List.getElem?_eq_some_iff.1 hget).1
      rw [hinv.length] at hlt
      omega

/-- A full table holds a descriptor without a bit: it has as many entries as there are bits, and the
    standard streams take three of these. -/
theorem Inv.full_large (h : st.Inv) (hfull : SelectServer.freePos st.fdArray = none) :
    ∃ (pos : Nat) (fd : Int), st.fdArray[pos]? = some fd ∧ fd ≠ -1 ∧ ¬ InSet fd := by
  by_contra hall
  have hused : ∀ fd ∈ st.fdArray, fd ≠ -1 := by
    rintro fd hmem rfl
    obtain ⟨pos, hpos⟩ := List.mem_iff_getElem?.1 hmem
    by_cases h0 : pos = 0
    · subst h0
      exact h.listen_ne (Option.some.inj (h.table.listen.symm.trans hpos))
    · exact SelectServer.freePos_none.1 hfull pos h0 hpos
  have hheld : Slots.held slotFd st.fdArray = st.fdArray := by
    have hsome : Slots.held slotFd st.fdArray = st.fdArray.filterMap some :=
      List.filterMap_congr fun fd hfd => slotFd_used (hused fd hfd)
    rw [hsome, List.filterMap_some]
  have hnodup : st.fdArray.Nodup := by
    rw [← hheld]
    exact h.table.table.nodup
  have hsubset : st.fdArray ⊆ (List.range (num - 3)).map fun k : Nat => (k : Int) + 3 := by
    intro fd hmem
    obtain ⟨pos, hpos⟩ := List.mem_iff_getElem?.1 hmem
    have hin : InSet fd := by
      by_contra hout
      exact hall ⟨pos, fd, hpos, hused fd hmem, hout⟩
    have hge : 3 ≤ fd := by
      by_contra hlt
      obtain ⟨-, hlisten, hacc⟩ := h.streams fd hin.1 (by omega)
      rcases (h.table.entry hpos (hused fd hmem)).2 with heq | hmem'
      · exact hlisten heq
      · exact hacc hmem'
    obtain ⟨-, hlt⟩ := hin
    unfold num at *
    refine List.mem_map.2 ⟨(fd - 3).toNat, List.mem_range.2 ?_, ?_⟩
    all_goals omega
  have hle := hnodup.length_le_of_subset hsubset
  rw [h.length, List.length_map, List.length_range] at hle
  exact absurd hle (by decide)

/-- Without room at an entry, `accept` is called there and returns a connection. -/
theorem accepts_of_crowded {a : AcceptResult} {r : RecvResult} (h : ¬ st.Room (.entry a r)) :
    st.Accepts ∧ ∃ fd, a = .ok fd := by
  cases a with
  | err e => exact absurd trivial h
  | ok fd => exact ⟨by_contra fun hacc => h fun hacc' => absurd hacc' hacc, fd, rfl⟩

/-- **A step without room.** -/
theorem doomed_of_crowded (hinv : st.Inv) (hroom : ¬ st.Room input)
    (hst : Step step st input st') : st'.Doomed := by
  cases step_moves hst with
  | select hscan =>
    have hout : ¬ InSet st.listenSock := fun hin => hroom hin.2
    refine .passed ?_ hout
    rw [(select_passed st _).1]
    exact List.mem_append_right _ (mem_sets.2 (.inr rfl))
  | @placed i fd r pos hscan hi htodo hfd hnew hpos =>
    obtain rfl := hinv.table.index_of_listen (SelectServer.todo_accept htodo).1
    obtain ⟨hget, hpos0⟩ := SelectServer.freePos_some hpos
    have hlt := (List.getElem?_eq_some_iff.1 hget).1
    have hout : ¬ InSet fd := fun hin => hroom fun _ => ⟨fd, hin, hnew⟩
    have hplaced : (st.fdArray.set pos fd)[pos]? = some fd := List.getElem?_set_self hlt
    exact .ahead rfl (Nat.one_le_iff_ne_zero.2 hpos0) hplaced (by omega) hout
  | @full i fd r hscan hi htodo hfd hnew hpos =>
    obtain rfl := hinv.table.index_of_listen (SelectServer.todo_accept htodo).1
    obtain ⟨pos, fd', hget, hne, hout⟩ := hinv.full_large hpos
    exact doomed_entry rfl rfl (Nat.zero_le pos) hget hne hout fun _ => hget
  -- at the other entries `accept` is not called, or fails
  | @kept i a r hscan hi hnone =>
    obtain ⟨⟨j, hscan', -, htodo⟩, fd, rfl⟩ := accepts_of_crowded hroom
    obtain rfl : i = j := Option.some.inj (hscan.symm.trans hscan')
    obtain ⟨e, he⟩ := hnone htodo
    cases he
  | @closed i fd a r hscan hi htodo =>
    obtain ⟨⟨j, hscan', -, htodo'⟩, -⟩ := accepts_of_crowded hroom
    obtain rfl : i = j := Option.some.inj (hscan.symm.trans hscan')
    rw [htodo] at htodo'
    cases htodo'
  | @done i a r hscan hi =>
    obtain ⟨⟨j, hscan', hj, -⟩, -⟩ := accepts_of_crowded hroom
    obtain rfl : i = j := Option.some.inj (hscan.symm.trans hscan')
    omega

/-! ## Runs -/

/-- The steps of the server with a kernel that gives the lowest descriptor. -/
def Steps : Select → SelectServer.Input → Select → Prop := Guarded LowestFree (Step step)

theorem fits_run {opened : Fds} {argc : Nat} {a : SetupAnswers} {is : List SelectServer.Input}
    (hstd : ∀ k, 0 ≤ k → k < 3 → opened k = true) (h0 : main opened argc a = .ok st)
    (h : Run (Guarded Room Steps) st is st') : st'.Fits := by
  have hinv := inv_main hstd h0
  obtain ⟨-, -, hscan, hpassed, -, -, harr⟩ := main_ok h0
  have hfits : st.Fits := by
    refine ⟨?_, ?_, fun hne => absurd hscan hne⟩
    · rw [hpassed]
      intro fd hfd
      cases hfd
    · intro fd hmem hne hlisten
      rw [harr] at hmem
      rcases List.mem_or_eq_of_mem_set hmem with hold | rfl
      · exact absurd (List.eq_of_mem_replicate hold) hne
      · exact absurd rfl hlisten
  have hrun := h.invariant (I := fun t => t.Inv ∧ t.Fits)
    (fun _ _ _ hI hst => ⟨hI.1.step hst.2.2, hI.2.step hI.1 hst.1 hst.2.1 hst.2.2⟩) ⟨hinv, hfits⟩
  exact hrun.2

/-- A run has room at every step, or a descriptor without a bit on its way. -/
theorem room_or_doomed {is : List SelectServer.Input} (hinv : st.Inv) (h : Run Steps st is st') :
    st'.Inv ∧ (Run (Guarded Room Steps) st is st' ∨ st'.Doomed) := by
  induction h with
  | nil => exact ⟨hinv, .inl Run.nil⟩
  | @snoc is t u input _ hst ih =>
    obtain ⟨hinvt, hrun | hdoomed⟩ := ih
    · refine ⟨hinvt.step hst.2, ?_⟩
      by_cases hroom : t.Room input
      · exact .inl (Run.snoc hrun ⟨hroom, hst⟩)
      · exact .inr (doomed_of_crowded hinvt hroom hst.2)
    · exact ⟨hinvt.step hst.2, .inr (hdoomed.step hinvt hst.2)⟩

/-! ## Clients that connect -/

/-- A step at an entry that is not ready; at the listening socket `accept` would fail. -/
def pass : SelectServer.Input := .entry (.err .eagain) (.err .eagain)

theorem step_next (hscan : st.scan = some i) (hi : i < num) (htodo : st.todo i = .next) :
    Step step st pass { st with scan := some (i + 1), passed := st.passed ++ st.isset i } := by
  have hsame : SelectServer.todo { st.toSelectServer with scan := some (i + 1) } i = .next := htodo
  simp only [Step, step, pass, hscan, if_pos hi, hsame]

/-- The server after the scan has passed over `k` entries from `i` on. -/
def skipped (st : Select) (i k : Nat) : Select :=
  { st with
    scan := some (i + k)
    passed := st.passed ++ (List.range k).flatMap fun j => st.isset (i + j) }

theorem run_skipped (k : Nat) (hscan : st.scan = some i) (hk : i + k ≤ num)
    (htodo : ∀ j, i ≤ j → j < i + k → st.todo j = .next) :
    Run (Step step) st (List.replicate k pass) (st.skipped i k) := by
  have hsame : st.skipped i 0 = st := by
    obtain ⟨server, passed⟩ := st
    simp [skipped, ← hscan]
  have hstep : ∀ j < k, Step step (st.skipped i j) pass (st.skipped i (j + 1)) := by
    intro j hj
    have hnext : (st.skipped i j).todo (i + j) = .next := htodo (i + j) (by omega) (by omega)
    have hlt : i + j < num := by omega
    have hpassed : st.passed ++ (List.range (j + 1)).flatMap (fun j => st.isset (i + j)) =
        (st.skipped i j).passed ++ (st.skipped i j).isset (i + j) := by
      rw [List.range_succ, List.flatMap_append, List.flatMap_singleton, ← List.append_assoc]
      rfl
    unfold skipped at hpassed ⊢
    rw [hpassed]
    exact step_next rfl hlt hnext
  have hrun := Run.replicate (f := st.skipped i) k hstep
  rwa [hsame] at hrun

/-- The server after the connection `fd` is accepted at the entry `i` and put at `pos`. -/
def taken (st : Select) (i : Nat) (fd : Int) (pos : Nat) : Select :=
  { st with
    scan := some (i + 1)
    opened := Function.update st.opened fd true
    accepted := st.accepted ++ [fd]
    fresh := st.fresh ++ [fd]
    fdArray := st.fdArray.set pos fd
    passed := st.passed ++ st.isset i }

theorem step_taken {r : RecvResult} (hscan : st.scan = some i) (hi : i < num)
    (htodo : st.todo i = .accept) (hfd : 0 ≤ fd) (hnew : st.opened fd = false)
    (hpos : SelectServer.freePos st.fdArray = some pos) :
    Step step st (.entry (.ok fd) r) (st.taken i fd pos) := by
  have hsame : SelectServer.todo { st.toSelectServer with scan := some (i + 1) } i = .accept :=
    htodo
  have hentry := SelectServer.acceptEntry_placed { st.toSelectServer with scan := some (i + 1) }
    hfd hnew hpos
  simp only [Step, step, hscan, if_pos hi, hsame, hentry, Option.map_some]
  rfl

/-- The head of a round in which only the listening socket is ready. -/
def listening (st : Select) : Select := st.select (.ready [st.listenSock])

/-- A round in which only the connection `fd` comes. -/
def connected (st : Select) (fd : Int) (pos : Nat) : Select :=
  { (st.listening.taken 0 fd pos).skipped 1 (num - 1) with scan := none }

/-- **A round with one new connection**: `select`, the step that accepts, and the rest of the
    scan. -/
theorem run_connected (ok : Select → SelectServer.Input → Prop) (h : st.Inv)
    (hscan : st.scan = none) (hfd : 0 ≤ fd) (hnew : st.opened fd = false)
    (hpos : SelectServer.freePos st.fdArray = some pos)
    (hselect : ok st (.select (.ready [st.listenSock])))
    (hacc : ok st.listening (.entry (.ok fd) (.err .eagain))) (hpass : ∀ s, ok s pass) :
    ∃ is, Run (Guarded ok (Step step)) st is (st.connected fd pos) := by
  have htodo : st.listening.todo 0 = .accept :=
    SelectServer.todo_eq_accept h.table.listen h.listen_ne (List.mem_singleton_self _)
  have hfirst : Step step st (.select (.ready [st.listenSock])) st.listening := by
    simp [Step, step, hscan, listening]
  have hsecond : Step step st.listening (.entry (.ok fd) (.err .eagain))
      (st.listening.taken 0 fd pos) := step_taken rfl (by decide) htodo hfd hnew hpos
  have hinv : (st.listening.taken 0 fd pos).Inv := (h.step hfirst).step hsecond
  -- no other entry is the listening socket, which alone is ready
  have hrest : ∀ j, 1 ≤ j → j < 1 + (num - 1) →
      (st.listening.taken 0 fd pos).todo j = .next := by
    intro j hj _
    apply SelectServer.todo_eq_next
    intro fd' hget hmem
    obtain rfl : fd' = st.listenSock := List.mem_singleton.1 hmem
    have hj0 := hinv.table.index_of_listen hget
    omega
  have hskipped := run_skipped (num - 1) rfl (by decide) hrest
  have hdone : Step step ((st.listening.taken 0 fd pos).skipped 1 (num - 1)) pass
      (st.connected fd pos) := by
    have hend : ((st.listening.taken 0 fd pos).skipped 1 (num - 1)).scan = some num := rfl
    simp [Step, step, pass, hend, connected]
  have hall : ∀ a ∈ List.replicate (num - 1) pass ++ [pass], ∀ s, ok s a := by
    intro a ha s
    rw [← List.replicate_succ'] at ha
    exact List.eq_of_mem_replicate ha ▸ hpass s
  have hguard : Run (Guarded ok (Step step)) _ _ _ := (hskipped.snoc hdone).guarded hall
  exact ⟨_, ((Run.single ⟨hselect, hfirst⟩).append (Run.single ⟨hacc, hsecond⟩)).append hguard⟩

/-- The scan of that round reaches the new connection. -/
theorem connected_passed (hpos : SelectServer.freePos st.fdArray = some pos) (hfd : 0 ≤ fd)
    (hnum : pos < num) : fd ∈ (st.connected fd pos).passed := by
  obtain ⟨hget, hpos0⟩ := SelectServer.freePos_some hpos
  have hplaced : (st.listening.taken 0 fd pos).fdArray[pos]? = some fd :=
    List.getElem?_set_self (List.getElem?_eq_some_iff.1 hget).1
  have hpos1 : 1 + (pos - 1) = pos := Nat.add_sub_cancel' (Nat.one_le_iff_ne_zero.2 hpos0)
  refine List.mem_append_right _ (List.mem_flatMap.2 ⟨pos - 1, ?_, ?_⟩)
  · exact List.mem_range.2 (by omega)
  · rw [hpos1]
    exact mem_isset.2 ⟨hplaced, by omega⟩

/-- `k` clients are connected, and the server is at the head of its loop. -/
structure Clients (st : Select) (k : Nat) : Prop where
  inv : st.Inv
  scan : st.scan = none
  listen : st.listenSock = 3
  accepted : st.accepted.length = k
  opened : ∀ fd, st.opened fd = true ↔ 0 ≤ fd ∧ fd < 4 + k
  free : ∀ pos, k < pos → pos < num → st.fdArray[pos]? = some (-1)

/-- The first free entry is not behind the one after the last client. -/
theorem Clients.freePos (h : st.Clients k) (hk : k + 1 < num) :
    ∃ pos, SelectServer.freePos st.fdArray = some pos ∧ pos ≤ k + 1 := by
  have hfree := h.free (k + 1) (Nat.lt_succ_self k) hk
  cases hpos : SelectServer.freePos st.fdArray with
  | some pos => exact ⟨pos, rfl, SelectServer.freePos_le hpos (Nat.succ_ne_zero k) hfree⟩
  | none => exact absurd hfree (SelectServer.freePos_none.1 hpos (k + 1) (Nat.succ_ne_zero k))

theorem Clients.connected (h : st.Clients k) (hle : pos ≤ k + 1)
    (hinv : (st.connected (4 + k) pos).Inv) :
    (st.connected (4 + k) pos).Clients (k + 1) := by
  refine ⟨hinv, rfl, h.listen, ?_, ?_, ?_⟩
  · show (st.accepted ++ [4 + (k : Int)]).length = k + 1
    rw [List.length_append, h.accepted]
    rfl
  · intro fd
    show Function.update st.opened (4 + (k : Int)) true fd = true ↔ _
    by_cases heq : fd = 4 + k
    · subst heq
      rw [Function.update_self]
      constructor
      · intro _
        omega
      · intro _
        rfl
    · rw [Function.update_of_ne heq, h.opened]
      omega
  · intro pos' hlt hnum
    show (st.fdArray.set pos (4 + (k : Int)))[pos']? = _
    rw [List.getElem?_set_ne (by omega)]
    exact h.free pos' (by omega) hnum

/-- The descriptor after the last one is free. -/
theorem Clients.unused (h : st.Clients k) : st.opened (4 + k) = false := by
  cases hopen : st.opened (4 + k) with
  | false => rfl
  | true =>
    have hlt := ((h.opened (4 + k)).1 hopen).2
    omega

/-- **One more client connects** and gets the descriptor after the last one. -/
theorem Clients.next (h : st.Clients k) (hk : k + 1 < num)
    (ok : Select → SelectServer.Input → Prop)
    (hselect : ok st (.select (.ready [st.listenSock])))
    (hacc : ok st.listening (.entry (.ok (4 + k)) (.err .eagain))) (hpass : ∀ s, ok s pass) :
    ∃ is st', Run (Guarded ok (Step step)) st is st' ∧ st'.Clients (k + 1) ∧
      (4 + k : Int) ∈ st'.passed := by
  obtain ⟨pos, hpos, hle⟩ := h.freePos hk
  have hfd : (0 : Int) ≤ 4 + k := by omega
  have hnew := h.unused
  obtain ⟨is, hrun⟩ := run_connected ok h.inv h.scan hfd hnew hpos hselect hacc hpass
  have hinv : (st.connected (4 + k) pos).Inv :=
    hrun.invariant (fun _ _ _ hI hst => hI.step hst.2) h.inv
  exact ⟨is, _, hrun, h.connected hle hinv, connected_passed hpos hfd (by omega)⟩

/-- Its descriptor is the lowest that is free. -/
theorem Clients.lowest (h : st.Clients k) :
    LowestFree st.listening (.entry (.ok (4 + k)) (.err .eagain)) :=
  fun _ fd hfd hlt => (h.opened fd).2 ⟨hfd, hlt⟩

/-- As long as it has a bit, there is room for it. -/
theorem Clients.room (h : st.Clients k) (hk : 4 + (k : Int) < num) :
    Room st (.select (.ready [st.listenSock])) ∧
      Room st.listening (.entry (.ok (4 + k)) (.err .eagain)) := by
  constructor
  · show st.listenSock < num
    rw [h.listen]
    decide
  · exact fun _ => ⟨4 + k, ⟨by omega, hk⟩, h.unused⟩

theorem streams_open (k : Int) (hk0 : 0 ≤ k) (hk3 : k < 3) : streams k = true :=
  decide_eq_true ⟨hk0, hk3⟩

/-- With the standard streams open, 3 becomes the listening socket. -/
theorem exists_clients : ∃ st, main streams 2 goodSetup = .ok st ∧ st.Clients 0 := by
  obtain ⟨st, hmain, hlisten⟩ : ∃ st, main streams 2 goodSetup = .ok st ∧ st.listenSock = 3 :=
    ⟨_, rfl, rfl⟩
  obtain ⟨-, -, hscan, -, hopened, hacc, harr⟩ := main_ok hmain
  refine ⟨st, hmain, inv_main streams_open hmain, hscan, hlisten, ?_, ?_, ?_⟩
  · rw [hacc]
    rfl
  · intro fd
    rw [hopened, hlisten]
    by_cases heq : fd = 3
    · subst heq
      simp
    · rw [Function.update_of_ne heq, streams, decide_eq_true_eq]
      omega
  · intro pos hlt hnum
    rw [harr, List.getElem?_set_ne (Nat.ne_of_lt hlt), List.getElem?_replicate_of_lt hnum]

/-! ## Every run -/

/-- **The `fd_set` is indexed within its bounds if and only if there is room at every step.** A run
    with room passes only descriptors that have a bit; and a run that has passed only such, and is
    back at the head of the loop, had room at every step. -/
theorem passed_inSet_iff_room (opened : Fds) (argc : Nat) (a : SetupAnswers) (st st' : Select)
    (is : List SelectServer.Input) (hstd : ∀ k, 0 ≤ k → k < 3 → opened k = true)
    (h0 : main opened argc a = .ok st) (h : Run Steps st is st') :
    (Run (Guarded Room Steps) st is st' → ∀ fd ∈ st'.passed, 0 ≤ fd ∧ fd < num) ∧
    (st'.scan = none → (∀ fd ∈ st'.passed, 0 ≤ fd ∧ fd < num) →
      Run (Guarded Room Steps) st is st') := by
  constructor
  · intro hroom
    exact (fits_run hstd h0 hroom).passed
  · intro hscan hpassed
    rcases (room_or_doomed (inv_main hstd h0) h).2 with hrun | hdoomed
    · exact hrun
    · cases hdoomed with
      | passed hmem hout => exact absurd (hpassed _ hmem) hout
      | ahead hscan' =>
        rw [hscan] at hscan'
        cases hscan'

/-- With one client connected, everything passed has a bit, its descriptor included. -/
theorem passed_inSet_iff_room_client : ∃ st is st', main streams 2 goodSetup = .ok st ∧
    Run Steps st is st' ∧ (4 : Int) ∈ st'.passed ∧ ∀ fd ∈ st'.passed, 0 ≤ fd ∧ fd < num := by
  obtain ⟨st, hmain, h⟩ := exists_clients
  obtain ⟨hselect, hacc⟩ := h.room (by decide)
  obtain ⟨is, st', hrun, -, hpassed⟩ := h.next (by decide)
    (fun s a => Room s a ∧ LowestFree s a) ⟨hselect, trivial⟩ ⟨hacc, h.lowest⟩
    fun _ => ⟨trivial, trivial⟩
  have hsteps : Run Steps st is st' := hrun.mono fun _ _ _ hst => ⟨hst.1.2, hst.2⟩
  have hguarded : Run (Guarded Room Steps) st is st' :=
    hrun.mono fun _ _ _ hst => ⟨hst.1.1, hst.1.2, hst.2⟩
  exact ⟨st, is, st', hmain, hsteps, hpassed,
    (passed_inSet_iff_room streams 2 goodSetup st st' is streams_open hmain hsteps).1 hguarded⟩

/-- **Too many clients.** With 1021 of them connected the last one has the descriptor 1024, which is
    passed to `FD_ISSET`; the table still has a free entry. -/
theorem passed_too_large : ∃ st is st', main streams 2 goodSetup = .ok st ∧ Run Steps st is st' ∧
    st'.accepted.length = 1021 ∧ (1024 : Int) ∈ st'.passed ∧ st'.fdArray[1023]? = some (-1) := by
  obtain ⟨st, hmain, h0⟩ := exists_clients
  have hnext : ∀ k < 1021, ∀ t : Select, t.Clients k →
      ∃ is u, Run Steps t is u ∧ u.Clients (k + 1) ∧ (4 + k : Int) ∈ u.passed :=
    fun k hk t ht => ht.next (Nat.lt_of_lt_of_le (Nat.succ_lt_succ hk) (by decide)) LowestFree
      trivial ht.lowest fun _ => trivial
  obtain ⟨is, t, hrun, ht⟩ := exists_rounds (n := 1020) (P := fun k (t : Select) => t.Clients k)
    (fun k hk t ht => by
      obtain ⟨is, u, hrun, hu, -⟩ := hnext k (Nat.lt_succ_of_lt hk) t ht
      exact ⟨is, u, hrun, hu⟩) h0
  obtain ⟨is', st', hrun', hclients, hpassed⟩ := hnext 1020 (by decide) t ht
  exact ⟨st, is ++ is', st', hmain, hrun.append hrun', hclients.accepted, hpassed,
    hclients.free 1023 (by decide) (by decide)⟩

end SystemCallLearn.Multiplex.Select
