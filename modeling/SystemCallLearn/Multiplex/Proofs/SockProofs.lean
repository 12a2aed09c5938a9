import SystemCallLearn.Multiplex.Sock
import SystemCallLearn.Lib.Slots

/-!
# Descriptors that are created, closed and kept in a table
-/

namespace SystemCallLearn.Multiplex

open SystemCallLearn.Posix SystemCallLearn.Lib

variable {opened opened' : Fds} {fd : Int}

/-- The descriptor in an entry of a table, where -1 marks a free entry. -/
def slotFd (fd : Int) : Option Int := if fd = -1 then none else some fd

theorem slotFd_free : slotFd (-1) = none := rfl

theorem slotFd_used (h : fd ≠ -1) : slotFd fd = some fd := if_neg h

theorem create_eq_some (h : opened.create fd = some opened') :
    0 ≤ fd ∧ opened fd = false ∧ opened' = Function.update opened fd true := by
  unfold Fds.create at h
  split_ifs at h with hfd
  exact ⟨hfd.1, hfd.2, (Option.some.inj h).symm⟩

theorem ne_of_open {fd' : Int} (hopen : opened fd = true) (hnew : opened fd' = false) :
    fd ≠ fd' := by
  rintro rfl
  rw [hopen] at hnew
  cases hnew

/-- A descriptor that is closed as soon as it is opened leaves the others as they are. -/
theorem close_update (opened : Fds) (h : opened fd = false) :
    Fds.close (Function.update opened fd true) fd = opened := by
  unfold Fds.close
  rw [Function.update_idem, ← h, Function.update_eq_self]

/-- `main` enters its loop with a listening socket that it has just opened. -/
theorem setup_ok {argc : Nat} {a : SetupAnswers} (h : setup opened argc a = .ok (opened', fd)) :
    0 ≤ fd ∧ opened fd = false ∧ opened' = Function.update opened fd true := by
  unfold setup at h
  split_ifs at h with hargc
  cases hs : a.socket with
  | error e =>
    rw [hs] at h
    cases h
  | ok fd' =>
    cases hc : opened.create fd' with
    | none => simp [hs, Multiplex.socket, hc, Bind.bind, Except.bind] at h
    | some o =>
      cases hb : a.bind with
      | some e => simp [hs, hb, Multiplex.socket, Multiplex.bind, hc, Bind.bind, Except.bind] at h
      | none =>
        cases hl : a.listen with
        | some e =>
          simp [hs, hb, hl, Multiplex.socket, Multiplex.bind, Multiplex.listen, hc, Bind.bind,
            Except.bind] at h
        | none =>
          have hpair : (o, fd') = (opened', fd) := by
            simpa [hs, hb, hl, Multiplex.socket, Multiplex.bind, Multiplex.listen, hc, Bind.bind,
              Except.bind, pure, Except.pure] using h
          obtain ⟨rfl, rfl⟩ := Prod.mk.inj hpair
          exact create_eq_some hc

/-- The standard streams are open. -/
def streams : Fds := fun fd => decide (0 ≤ fd ∧ fd < 3)

/-- The listening socket is 3. -/
def goodSetup : SetupAnswers where
  socket := .ok 3
  bind := none
  listen := none

end SystemCallLearn.Multiplex
