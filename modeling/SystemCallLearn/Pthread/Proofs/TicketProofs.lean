import SystemCallLearn.Lib.Stage
import SystemCallLearn.Pthread.Ticket
import Mathlib.Data.List.Nodup

/-!
# The ticket counter does not oversell

A sale prints the next ticket and then takes it off the counter. Only the owner of the mutex moves a
sale forward, so between the two nobody else looks at the counter. The state of a sale is what the
test, the print and the decrement are about; the threads and the output follow it.
-/

namespace SystemCallLearn.Pthread.Ticket

open SystemCallLearn.Lib

/-! ## The sale -/

/-- How far the sale is: at most one ticket is printed and not yet taken off. -/
structure Sale where
  sold : Nat
  printed : Nat
  next : printed = sold ∨ printed = sold + 1
  le : printed ≤ 1000

/-- The ticket with index `k`. -/
def nth (k : Nat) : Int := 1000 - (k : Int)

theorem nth_inj {k m : Nat} (h : nth k = nth m) : k = m := by
  unfold nth at h
  omega

namespace Sale

variable (l : Sale)

def tickets : List Int := (List.range l.printed).map nth

/-- What is taken off has been printed. -/
theorem sold_le : l.sold ≤ l.printed := by
  rcases l.next with hn | hn
  · exact Nat.le_of_eq hn.symm
  · exact hn ▸ Nat.le_succ l.sold

/-- Nobody has printed a ticket that he still has to take off. -/
def Settled : Prop := l.printed = l.sold

/-- The next ticket is printed. -/
def print (h : l.sold < 1000) : Sale where
  sold := l.sold
  printed := l.sold + 1
  next := .inr rfl
  le := h

theorem tickets_print {l : Sale} (hs : l.Settled) (h : l.sold < 1000) :
    (l.print h).tickets = l.tickets ++ [nth l.printed] := by
  have hprinted : (l.print h).printed = l.printed + 1 := congrArg (· + 1) (Eq.symm hs)
  unfold tickets
  rw [hprinted, List.range_succ, List.map_append]
  rfl

/-- It is taken off. -/
def take (hp : l.printed = l.sold + 1) : Sale where
  sold := l.sold + 1
  printed := l.printed
  next := .inl hp
  le := l.le

end Sale

/-- What a call that is over, or nearly so, means for the sale. -/
def Call.Fits (l : Sale) (c : Call) : Prop :=
  (c.res = true ∧ ∃ k < l.sold, c.ticket = some (nth k)) ∨
  (c.res = false ∧ c.ticket = none ∧ l.sold = 1000)

/-! ## The threads follow it -/

/-- The points inside the critical section. -/
def Point.inside : Point → Bool
  | .test | .usleep | .print | .decrement _ | .soldOut | .unlock _ => true
  | .lock | .ret _ | .done => false

/-- Where a thread may be at this stage of the sale. -/
def Allows (l : Sale) : Point → Prop
  | .lock | .done => True
  | .test => l.Settled
  | .usleep | .print => l.Settled ∧ l.sold < 1000
  | .decrement ticket => l.printed = l.sold + 1 ∧ ticket = nth l.sold
  | .soldOut => l.Settled ∧ l.sold = 1000
  | .unlock c => l.Settled ∧ c.Fits l
  | .ret c => c.Fits l

variable {ι : Type}

/-- The counter and the output show this stage of the sale. -/
structure Shows (s : Ticket ι) (l : Sale) : Prop where
  tickets : s.tickets = 1000 - (l.sold : Int)
  decrements : s.decrements = l.sold
  printed : s.printed = l.tickets

/-- The simulation: besides, the mutex is taken between a print and its decrement, the calls that
    have returned fit the sale, and each ticket printed belongs to one call. -/
structure Sim (s : Ticket ι) (l : Sale) : Prop where
  shows : Shows s l
  held : s.mtx = none → l.Settled
  staged : Staged s.mtx s.point Point.inside Allows l
  returned : ∀ c ∈ s.returned, c.Fits l
  once : ∀ k < l.printed, SoldOnce s (nth k)

section Steps

variable {s s' : Ticket ι} {l l' : Sale} {i : ι} {pt : Point} {c : Call} {t : Int}

theorem sim_start : Sim (start : Ticket ι) ⟨0, 0, .inl rfl, Nat.zero_le _⟩ where
  shows := ⟨rfl, rfl, rfl⟩
  held := fun _ => rfl
  staged := ⟨owns_none fun _ => rfl, fun _ => trivial⟩
  returned := by
    intro c hc
    cases hc
  once := by
    intro k hk
    cases hk

/-- A call that fits the sale does so later. -/
theorem Call.Fits.mono (h : c.Fits l) (hle : l.sold ≤ l'.sold) : c.Fits l' := by
  rcases h with ⟨hres, k, hk, ht⟩ | ⟨hres, ht, hsold⟩
  · exact .inl ⟨hres, k, Nat.lt_of_lt_of_le hk hle, ht⟩
  · refine .inr ⟨hres, ht, ?_⟩
    have hsold_le := l'.sold_le
    have hmax := l'.le
    omega

/-- What a thread outside the critical section relies on: the sale goes forward. -/
theorem allows_outside (hle : l.sold ≤ l'.sold) (hpt : pt.inside = false) (h : Allows l pt) :
    Allows l' pt := by
  cases pt with
  | lock | done => trivial
  | ret c => exact h.mono hle
  | test | usleep | print | decrement | soldOut | unlock => cases hpt

/-- The ticket that a thread holds has been printed. -/
theorem Sim.held_lt (h : Sim s l) (hi : (s.point i).ticket = some t) :
    ∃ k < l.printed, t = nth k := by
  have ha := h.staged.points i
  have hle := l.sold_le
  have hfits : ∀ c : Call, c.Fits l → (if c.res then c.ticket else none) = some t →
      ∃ k < l.printed, t = nth k := by
    rintro c (⟨hres, k, hk, ht⟩ | ⟨hres, -, -⟩) hc
    · rw [if_pos hres, ht, Option.some.injEq] at hc
      exact ⟨k, Nat.lt_of_lt_of_le hk hle, hc.symm⟩
    · simp [hres] at hc
  cases hp : s.point i with
  | decrement ticket =>
    rw [hp] at ha hi
    obtain ⟨hprinted, rfl⟩ := ha
    refine ⟨l.sold, by omega, (Option.some.inj hi).symm⟩
  | unlock c =>
    rw [hp] at ha hi
    exact hfits c ha.2 hi
  | ret c =>
    rw [hp] at ha hi
    exact hfits c ha hi
  | lock | test | usleep | print | soldOut | done =>
    rw [hp] at hi
    cases hi

/-- No call has the ticket that is printed next. -/
theorem Sim.unsold (h : Sim s l) :
    s.returned.count ⟨true, some (nth l.printed)⟩ = 0 ∧
      ∀ i, (s.point i).ticket ≠ some (nth l.printed) := by
  constructor
  · rw [List.count_eq_zero]
    intro hmem
    rcases h.returned _ hmem with ⟨-, k, hk, ht⟩ | ⟨hres, -, -⟩
    · have hkp : l.printed = k := nth_inj (Option.some.inj ht)
      have hle := l.sold_le
      omega
    · cases hres
  · intro i hi
    obtain ⟨k, hk, ht⟩ := h.held_lt hi
    have hkp : l.printed = k := nth_inj ht
    omega

/-- A step in which no call gets or gives up this ticket, or returns with it. -/
theorem SoldOnce.frame (h : SoldOnce s t)
    (hret : s'.returned.count ⟨true, some t⟩ = s.returned.count ⟨true, some t⟩)
    (hpt : ∀ j, (s'.point j).ticket = some t ↔ (s.point j).ticket = some t) : SoldOnce s' t := by
  unfold SoldOnce
  simp only [hret, ne_eq, hpt]
  exact h

theorem ret_ticket (h : (Point.ret c).ticket = some t) : c = ⟨true, some t⟩ := by
  obtain ⟨res, ticket⟩ := c
  cases res with
  | true =>
    have ht : ticket = some t := h
    rw [ht]
  | false => cases h

variable [DecidableEq ι]

theorem move_ticket (s : Ticket ι) (ht : pt.ticket = (s.point i).ticket) (j : ι) :
    ((s.move i pt).point j).ticket = (s.point j).ticket := by
  by_cases hj : j = i
  · subst hj
    show (Function.update s.point j pt j).ticket = _
    rw [Function.update_self, ht]
  · show (Function.update s.point i pt j).ticket = _
    rw [Function.update_of_ne hj]

theorem move_ticket_iff (s : Ticket ι) (hpt : pt.ticket ≠ some t) (hi : (s.point i).ticket ≠ some t)
    (j : ι) : ((s.move i pt).point j).ticket = some t ↔ (s.point j).ticket = some t := by
  by_cases hj : j = i
  · subst hj
    show (Function.update s.point j pt j).ticket = some t ↔ _
    rw [Function.update_self]
    exact ⟨fun h => absurd h hpt, fun h => absurd h hi⟩
  · show (Function.update s.point i pt j).ticket = some t ↔ _
    rw [Function.update_of_ne hj]

/-- A thread moves on its side of the mutex, with the ticket it has. -/
theorem Sim.keep (h : Sim s l) (hpt : pt.inside = (s.point i).inside)
    (ht : pt.ticket = (s.point i).ticket) (ha : Allows l pt) : Sim (s.move i pt) l where
  shows := ⟨h.shows.tickets, h.shows.decrements, h.shows.printed⟩
  held := h.held
  staged := h.staged.keep hpt ha
  returned := h.returned
  once := fun k hk => (h.once k hk).frame rfl fun j => by rw [move_ticket s ht j]

/-- A thread takes the free mutex: the sale is settled. -/
theorem Sim.lock (h : Sim s l) (hp : s.point i = .lock) (hmtx : s.mtx = none) :
    Sim { s.move i .test with mtx := some i } l where
  shows := ⟨h.shows.tickets, h.shows.decrements, h.shows.printed⟩
  held := by
    intro hnone
    cases hnone
  staged := by
    have hfree := h.staged
    rw [hmtx] at hfree
    exact hfree.acquire rfl (h.held hmtx)
  returned := h.returned
  once := by
    have ht : Point.test.ticket = (s.point i).ticket := by rw [hp]; rfl
    intro k hk
    refine (h.once k hk).frame rfl fun j => ?_
    rw [← move_ticket s ht j]

/-- The test reads the counter of the sale. -/
theorem Sim.test (h : Sim s l) (hp : s.point i = .test) :
    Sim (s.move i (if 0 < s.tickets then .usleep else .soldOut)) l := by
  have ha := h.staged.points i
  rw [hp] at ha
  have htickets := h.shows.tickets
  have hle := l.le
  by_cases hpos : 0 < s.tickets
  · rw [if_pos hpos]
    refine h.keep (by rw [hp]; rfl) (by rw [hp]; rfl) ⟨ha, ?_⟩
    omega
  · rw [if_neg hpos]
    refine h.keep (by rw [hp]; rfl) (by rw [hp]; rfl) ⟨ha, ?_⟩
    have hset : l.printed = l.sold := ha
    omega

/-- The next ticket is printed. Nobody else has it, and the owner of the mutex has no other. -/
theorem Sim.print (h : Sim s l) (hp : s.point i = .print) :
    ∃ l', Sim { s.move i (.decrement s.tickets) with
      output := s.output ++ [.ticket i s.tickets] } l' := by
  have ha := h.staged.points i
  rw [hp] at ha
  obtain ⟨hset, hlt⟩ := ha
  have heq : l.printed = l.sold := hset
  have hinside : (s.point i).inside = true := by rw [hp]; rfl
  have htickets : s.tickets = nth l.printed := by
    rw [h.shows.tickets, heq]
    rfl
  obtain ⟨hcount, hnone⟩ := h.unsold
  refine ⟨l.print hlt, ⟨h.shows.tickets, h.shows.decrements, ?_⟩, ?_, ?_, ?_, ?_⟩
  · show (s.output ++ [Message.ticket i s.tickets]).filterMap Message.number = _
    rw [List.filterMap_append, show s.output.filterMap Message.number = l.tickets from
      h.shows.printed, htickets]
    exact (Sale.tickets_print hset hlt).symm
  · intro hmtx
    have howned := h.staged.owned hinside
    exact absurd (hmtx.symm.trans howned) (by simp)
  · refine h.staged.advance hinside (fun y hy => allows_outside (Nat.le_refl _) hy) rfl ⟨rfl, ?_⟩
    rw [htickets, heq]
    rfl
  · intro c hc
    exact (h.returned c hc).mono (Nat.le_refl _)
  · intro k hk
    by_cases hkl : k < l.printed
    · have hne : nth k ≠ nth l.printed := fun he => absurd (nth_inj he) (by omega)
      refine (h.once k hkl).frame rfl (move_ticket_iff s ?_ ?_)
      · rw [htickets]
        exact fun he => hne (Option.some.inj he).symm
      · rw [hp]
        exact Option.some_ne_none _ ∘ Eq.symm
    · obtain rfl : k = l.printed := by
        have hk' : k < l.sold + 1 := hk
        omega
      refine .inr ⟨hcount, i, ?_, ?_⟩
      · show (Function.update s.point i (.decrement s.tickets) i).ticket = _
        rw [Function.update_self, htickets]
        rfl
      · intro j hj
        by_contra hji
        refine hnone j ?_
        have hj' : (Function.update s.point i (.decrement s.tickets) j).ticket = _ := hj
        rwa [Function.update_of_ne hji] at hj'

/-- It is taken off the counter. -/
theorem Sim.decrement (h : Sim s l) (hp : s.point i = .decrement t) :
    ∃ l', Sim { s.move i (.unlock ⟨true, some t⟩) with
      tickets := s.tickets - 1
      decrements := s.decrements + 1 } l' := by
  have ha := h.staged.points i
  rw [hp] at ha
  obtain ⟨hprinted, rfl⟩ := ha
  have hinside : (s.point i).inside = true := by rw [hp]; rfl
  have hsold : l.sold ≤ (l.take hprinted).sold := Nat.le_succ _
  have ht : (Point.unlock ⟨true, some (nth l.sold)⟩).ticket = (s.point i).ticket := by
    rw [hp]
    rfl
  refine ⟨l.take hprinted, ⟨?_, ?_, h.shows.printed⟩, fun _ => hprinted, ?_, ?_, ?_⟩
  · show s.tickets - 1 = 1000 - ((l.sold + 1 : Nat) : Int)
    rw [h.shows.tickets]
    omega
  · show s.decrements + 1 = l.sold + 1
    rw [h.shows.decrements]
  · refine h.staged.advance hinside (fun y hy => allows_outside hsold hy) rfl ⟨hprinted, ?_⟩
    exact .inl ⟨rfl, l.sold, Nat.lt_succ_self _, rfl⟩
  · intro c hc
    exact (h.returned c hc).mono hsold
  · intro k hk
    refine (h.once k hk).frame rfl fun j => ?_
    rw [← move_ticket s ht j]

/-- There are no tickets left. -/
theorem Sim.soldOut (h : Sim s l) (hp : s.point i = .soldOut) :
    Sim { s.move i (.unlock ⟨false, none⟩) with output := s.output ++ [.soldOut] } l := by
  have ha := h.staged.points i
  rw [hp] at ha
  have hmove : Sim (s.move i (.unlock ⟨false, none⟩)) l := by
    refine h.keep (by rw [hp]; rfl) (by rw [hp]; rfl) ⟨ha.1, ?_⟩
    exact .inr ⟨rfl, rfl, ha.2⟩
  refine ⟨⟨h.shows.tickets, h.shows.decrements, ?_⟩, hmove.held, hmove.staged, hmove.returned,
    hmove.once⟩
  show (s.output ++ [Message.soldOut]).filterMap Message.number = _
  rw [List.filterMap_append, show s.output.filterMap Message.number = l.tickets from
    h.shows.printed]
  exact List.append_nil _

/-- The owner leaves with the sale settled. -/
theorem Sim.unlock (h : Sim s l) (hp : s.point i = .unlock c) :
    Sim { s.move i (.ret c) with mtx := none } l := by
  have ha := h.staged.points i
  rw [hp] at ha
  have ht : (Point.ret c).ticket = (s.point i).ticket := by rw [hp]; rfl
  refine ⟨⟨h.shows.tickets, h.shows.decrements, h.shows.printed⟩, fun _ => ha.1, ?_, h.returned,
    ?_⟩
  · exact h.staged.release (by rw [hp]; rfl) rfl ha.2
  · intro k hk
    refine (h.once k hk).frame rfl fun j => ?_
    rw [← move_ticket s ht j]

/-- A call returns, and what it holds is counted with the calls that have returned. -/
theorem SoldOnce.ret (h : SoldOnce s t) (hp : s.point i = .ret c) (hpt : pt.ticket = none) :
    SoldOnce { s.move i pt with returned := s.returned ++ [c] } t := by
  have hpt' : pt.ticket ≠ some t := by
    rw [hpt]
    exact Option.some_ne_none _ ∘ Eq.symm
  by_cases hc : c = ⟨true, some t⟩
  · subst hc
    have hi : (s.point i).ticket = some t := by rw [hp]; rfl
    rcases h with ⟨-, hnone⟩ | ⟨hcount, j, -, hj⟩
    · exact absurd hi (hnone i)
    · obtain rfl : i = j := hj i hi
      refine .inl ⟨?_, ?_⟩
      · show (s.returned ++ [_]).count _ = 1
        rw [List.count_append, hcount, List.count_singleton_self]
      · intro k hk
        have hk' : (Function.update s.point i pt k).ticket = some t := hk
        by_cases hki : k = i
        · subst hki
          rw [Function.update_self] at hk'
          exact hpt' hk'
        · rw [Function.update_of_ne hki] at hk'
          exact hki (hj k hk')
  · have hi : (s.point i).ticket ≠ some t := by
      rw [hp]
      exact fun he => hc (ret_ticket he)
    refine h.frame ?_ (move_ticket_iff s hpt' hi)
    show (s.returned ++ [c]).count _ = _
    rw [List.count_append, List.count_singleton, beq_false_of_ne hc]
    rfl

theorem Sim.ret (h : Sim s l) (hp : s.point i = .ret c) :
    Sim { s.move i (if c.res then .lock else .done) with returned := s.returned ++ [c] } l := by
  have hfits := h.staged.points i
  rw [hp] at hfits
  have hinside : (if c.res then Point.lock else .done).inside = (s.point i).inside := by
    rw [hp]
    split_ifs <;> rfl
  have hpt : (if c.res then Point.lock else .done).ticket = none := by
    split_ifs <;> rfl
  have hallows : Allows l (if c.res then Point.lock else .done) := by
    split_ifs <;> trivial
  refine ⟨⟨h.shows.tickets, h.shows.decrements, h.shows.printed⟩, h.held,
    h.staged.keep hinside hallows, ?_, ?_⟩
  · intro d hd
    rcases List.mem_append.1 hd with hd | hd
    · exact h.returned d hd
    · obtain rfl := List.mem_singleton.1 hd
      exact hfits
  · intro k hk
    exact (h.once k hk).ret hp hpt

/-- **The step lemma.** -/
theorem Sim.step (h : Sim s l) (hst : s.step i = some s') : ∃ l', Sim s' l' := by
  unfold Ticket.step at hst
  cases hp : s.point i with
  | lock =>
    cases hmtx : s.mtx with
    | none =>
      simp only [hp, hmtx, Option.some.injEq] at hst
      subst hst
      exact ⟨l, h.lock hp hmtx⟩
    | some j => simp [hp, hmtx] at hst
  | test =>
    simp only [hp, Option.some.injEq] at hst
    subst hst
    exact ⟨l, h.test hp⟩
  | usleep =>
    simp only [hp, Option.some.injEq] at hst
    subst hst
    have ha := h.staged.points i
    rw [hp] at ha
    exact ⟨l, h.keep (by rw [hp]; rfl) (by rw [hp]; rfl) ha⟩
  | print =>
    simp only [hp, Option.some.injEq] at hst
    subst hst
    exact h.print hp
  | decrement ticket =>
    simp only [hp, Option.some.injEq] at hst
    subst hst
    exact h.decrement hp
  | soldOut =>
    simp only [hp, Option.some.injEq] at hst
    subst hst
    exact ⟨l, h.soldOut hp⟩
  | unlock c =>
    simp only [hp, Option.some.injEq] at hst
    subst hst
    exact ⟨l, h.unlock hp⟩
  | ret c =>
    simp only [hp, Option.some.injEq] at hst
    subst hst
    exact ⟨l, h.ret hp⟩
  | done => simp [hp] at hst

/-- **The run lemma.** -/
theorem run_sim {is : List ι} (h : Run (Step step) start is s) : ∃ l, Sim s l :=
  h.invariant (I := fun s => ∃ l, Sim s l) (fun _ _ _ ⟨_, hl⟩ hst => hl.step hst) ⟨_, sim_start⟩

end Steps

/-! ## Nothing is sold twice -/

/-- The tickets printed are 1000, 999, … without a gap; with the mutex free every ticket is still
    on the counter or taken off it; a call has returned `false` only if all are sold, and a call
    that has returned `true` has one of the tickets printed, each of which belongs to exactly one
    call. -/
theorem never_oversells [DecidableEq ι] {s : Ticket ι} {is : List ι}
    (h : Run (Step step) start is s) :
    (∃ n ≤ 1000, s.printed = (List.range n).map fun k : Nat => 1000 - (k : Int)) ∧
      s.printed.Nodup ∧ (∀ t ∈ s.printed, 1 ≤ t) ∧
      (s.mtx = none → s.tickets + s.decrements = 1000) ∧
      (∀ c ∈ s.returned, c.res = false →
        c.ticket = none ∧ s.decrements = 1000 ∧ s.printed.length = 1000) ∧
      (∀ c ∈ s.returned, c.res = true → ∃ t ∈ s.printed, c.ticket = some t) ∧
      ∀ t ∈ s.printed, SoldOnce s t := by
  obtain ⟨l, hl⟩ := run_sim h
  have hmem : ∀ t, t ∈ s.printed ↔ ∃ k < l.printed, nth k = t := by
    intro t
    rw [hl.shows.printed]
    simp [Sale.tickets]
  have hle := l.le
  refine ⟨⟨l.printed, l.le, hl.shows.printed⟩, ?_, ?_, ?_, ?_, ?_, ?_⟩
  · rw [hl.shows.printed]
    exact List.Nodup.map (fun _ _ => nth_inj) List.nodup_range
  · intro t ht
    obtain ⟨k, hk, rfl⟩ := (hmem t).1 ht
    unfold nth
    omega
  · intro _
    rw [hl.shows.tickets, hl.shows.decrements]
    omega
  · intro c hc hres
    rcases hl.returned c hc with ⟨htrue, -⟩ | ⟨-, hticket, hsold⟩
    · rw [hres] at htrue
      cases htrue
    · refine ⟨hticket, hl.shows.decrements.trans hsold, ?_⟩
      rw [hl.shows.printed]
      simp only [Sale.tickets, List.length_map, List.length_range]
      have hsold_le := l.sold_le
      omega
  · intro c hc hres
    rcases hl.returned c hc with ⟨-, k, hk, hticket⟩ | ⟨hfalse, -⟩
    · exact ⟨nth k, (hmem _).2 ⟨k, Nat.lt_of_lt_of_le hk l.sold_le, rfl⟩, hticket⟩
    · rw [hres] at hfalse
      cases hfalse
  · intro t ht
    obtain ⟨k, hk, rfl⟩ := (hmem t).1 ht
    exact hl.once k hk

/-- The thread `false` takes a ticket, and `true` the next one as soon as the mutex is free. -/
def contended : List Bool :=
  List.replicate 6 false ++ [true, true, false] ++ List.replicate 5 true

theorem never_oversells_contended : ∃ s : Ticket Bool, s.printed = [1000, 999] ∧
    s.returned = [⟨true, some 1000⟩, ⟨true, some 999⟩] ∧
    (s.mtx = none → s.tickets + s.decrements = 1000) ∧ ∀ t ∈ s.printed, SoldOnce s t := by
  obtain ⟨s, hrun, hprinted, hreturned⟩ := exec_exists step (start : Ticket Bool) contended
    (p := fun s => s.printed = [1000, 999] ∧ s.returned = [⟨true, some 1000⟩, ⟨true, some 999⟩])
    (by decide +kernel)
  obtain ⟨-, -, -, hfree, -, -, honce⟩ := never_oversells hrun
  exact ⟨s, hprinted, hreturned, hfree, honce⟩

end SystemCallLearn.Pthread.Ticket
