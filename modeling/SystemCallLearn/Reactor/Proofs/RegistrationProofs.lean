import SystemCallLearn.Reactor.Proofs.DispatchProofs

/-!
# What `InsertEvent` and `EnableRW` report

Both are `bool` functions with a `return false` for a failed `epoll_ctl` and no return statement
behind it. The stores they leave are right on both paths; the value is there on one of them only.
The states are those that the server reaches and, from there, any use of the `Reactor`.
-/

namespace SystemCallLearn.Reactor

open SystemCallLearn.Posix SystemCallLearn.Lib

/-! ## Any use of the `Reactor` -/

/-- A socket is opened, an `Event` made, or a member function called. -/
inductive Call where
  | socket (fd : Int)
  | new (ev : Event)
  | insertEvent (evp : EventPtr) (evs : UInt32) (answer : Option Errno)
  | deleteEvent (evp : EventPtr)
  | enableRW (sock : Int) (read write : Bool) (answer : Option Errno)

def Server.call (s : Server) : Call → Exec Server
  | .socket fd => do
    let (s, _) ← s.socket (.ok fd)
    return s
  | .new ev => .ok (s.new ev).1
  | .insertEvent evp evs answer => do
    let (s, _) ← s.insertEvent evp evs answer
    return s
  | .deleteEvent evp => s.deleteEvent evp
  | .enableRW sock read write answer => .ok (s.enableRW sock read write answer).1

/-- The calls as steps. -/
def Server.Calls (s : Server) (c : Call) (t : Server) : Prop := s.call c = .ok t

section Calls

variable {s t : Server} {fd : Int}

/-- **The step lemma.** -/
theorem sound_call (hs : s.Sound) {c : Call} (h : s.call c = .ok t) : t.Sound := by
  cases c with
  | socket fd =>
    simp only [Server.call, Server.socket] at h
    split_ifs at h with hfd
    · obtain rfl := Except.ok.inj h
      refine ⟨hs.keys, fun fd' hfd' => ?_⟩
      by_cases hne : fd' = fd
      · subst hne
        simp [Server.openSock]
      · simpa [Server.openSock, Function.update_of_ne hne] using hs.opened fd' hfd'
    · cases h
  | new ev =>
    obtain rfl := Except.ok.inj h
    exact ⟨hs.keys, hs.opened⟩
  | insertEvent evp evs answer =>
    cases hev : s.heap evp with
    | none => simp [Server.call, Server.insertEvent, Server.deref, hev] at h
    | some ev =>
      simp only [Server.call, insertEvent_spec hs hev evs answer rfl, Exec.ok_bind,
        Exec.pure_eq] at h
      obtain rfl := Except.ok.inj h
      exact sound_inserted hs evp evs fun hr => (ctlError_add hr).1
  | deleteEvent evp =>
    cases hev : s.heap evp with
    | none => simp [Server.call, Server.deleteEvent, Server.deref, hev] at h
    | some ev =>
      cases hstored : s.events ev.sock with
      | none =>
        simp only [Server.call, Server.deleteEvent, deref_eq hev, Exec.ok_bind, hstored,
          Exec.pure_eq] at h
        obtain rfl := Except.ok.inj h
        exact hs
      | some evp' =>
        simp only [Server.call, deleteEvent_spec hs hev hstored] at h
        obtain rfl := Except.ok.inj h
        exact sound_removed hs evp ev.sock
  | enableRW sock read write answer =>
    simp only [Server.call, enableRW_spec s sock read write answer rfl] at h
    obtain rfl := Except.ok.inj h
    exact sound_modded hs _ fun hr => (ctlError_mod hr).2

/-- **The run lemma.** -/
theorem run_sound {st st' : Loop} {is : List Input} {calls : List Call} (h0 : Started st)
    (h : Run Loop.Steps st is st') (hc : Run Server.Calls st'.srv calls s) : s.Sound :=
  hc.invariant (fun _ _ _ hs hst => sound_call hs hst) (loop_run h0 h).srv.sound

end Calls

/-! ## The reports -/

/-- What a registration call is to report: true for a request that took effect, and false for one
    that failed and left everything as it was. -/
structure Reports (ret : Option Bool) (failed effect unchanged : Prop) : Prop where
  success : ret = some true ↔ ¬ failed
  effect : ¬ failed → effect
  failure : ret = some false ↔ failed
  unchanged : failed → unchanged

/-- The `epoll_ctl` of `InsertEvent` fails. -/
def Server.AddFails (s : Server) (ev : Event) (evs : UInt32) (answer : Option Errno) : Prop :=
  s.ctlError (.add { events := evs, fd := ev.sock }) ev.sock answer ≠ none

/-- The `epoll_ctl` of `EnableRW` fails. -/
def Server.ModFails (s : Server) (sock : Int) (mask : UInt32) (answer : Option Errno) : Prop :=
  s.ctlError (.mod { events := mask, fd := sock }) sock answer ≠ none

/-- The stores of the `Reactor` are as before. -/
def Server.SameStores (s t : Server) : Prop := t.events = s.events ∧ t.interest = s.interest

/-- The `Event` is in both stores, with the mask `evs`. -/
def Server.Inserted (t : Server) (evp : EventPtr) (ev : Event) (evs : UInt32) : Prop :=
  t.interest ev.sock = some { events := evs, fd := ev.sock } ∧ t.events ev.sock = some evp

/-- The mask of the descriptor is `mask`. -/
def Server.Enabled (t : Server) (sock : Int) (mask : UInt32) : Prop :=
  t.interest sock = some { events := mask, fd := sock }

section Reports

variable {effect unchanged : Prop}

theorem reports_iff {r : Option Errno} (heffect : r = none → effect)
    (hunchanged : r ≠ none → unchanged) :
    Reports (report r) (r ≠ none) effect unchanged ↔ r ≠ none := by
  cases r with
  | some e =>
    have hfailed : some e ≠ none := Option.some_ne_none e
    refine ⟨fun _ => hfailed, fun _ => ⟨?_, ?_, ?_, hunchanged⟩⟩
    · simp [report]
    · exact fun h => absurd hfailed h
    · simp [report]
  | none =>
    constructor
    · intro h
      have htrue := h.success.2 fun hne => hne rfl
      cases htrue
    · intro h
      exact absurd rfl h

theorem inserted_stores (s : Server) (evp : EventPtr) (ev : Event) (evs : UInt32)
    (r : Option Errno) : (r = none → (s.inserted evp ev.sock evs r).Inserted evp ev evs) ∧
      (r ≠ none → s.SameStores (s.inserted evp ev.sock evs r)) := by
  cases r with
  | some e => exact ⟨fun h => absurd h (Option.some_ne_none e), fun _ => ⟨rfl, rfl⟩⟩
  | none =>
    refine ⟨fun _ => ⟨?_, ?_⟩, fun h => absurd rfl h⟩
    · simp [Server.inserted]
    · simp [Server.inserted]

theorem modded_stores (s : Server) (sock : Int) (mask : UInt32) (r : Option Errno) :
    (r = none → (s.modded sock mask r).Enabled sock mask) ∧
      (r ≠ none → s.SameStores (s.modded sock mask r)) := by
  cases r with
  | some e => exact ⟨fun h => absurd h (Option.some_ne_none e), fun _ => ⟨rfl, rfl⟩⟩
  | none =>
    refine ⟨fun _ => ?_, fun h => absurd rfl h⟩
    simp [Server.modded, Server.Enabled]

end Reports

/-- In every state that the server reaches, and in every state that any use of its `Reactor` reaches
    from there, a request that succeeds is in the stores; what is reported of a request is right if
    and only if `epoll_ctl` fails. -/
theorem reports_iff_fails {st st' : Loop} {is : List Input} {calls : List Call} {s : Server}
    (h0 : Started st) (h : Run Loop.Steps st is st') (hc : Run Server.Calls st'.srv calls s) :
    (∀ evp ev evs answer, s.heap evp = some ev →
      ∃ t ret, s.insertEvent evp evs answer = .ok (t, ret) ∧
        (¬ s.AddFails ev evs answer → t.Inserted evp ev evs) ∧
        (Reports ret (s.AddFails ev evs answer) (t.Inserted evp ev evs) (s.SameStores t) ↔
          s.AddFails ev evs answer)) ∧
    (∀ sock read write answer, ∃ t ret, s.enableRW sock read write answer = (t, ret) ∧
      (¬ s.ModFails sock (enableMask read write) answer → t.Enabled sock (enableMask read write)) ∧
      (Reports ret (s.ModFails sock (enableMask read write) answer)
        (t.Enabled sock (enableMask read write)) (s.SameStores t) ↔
        s.ModFails sock (enableMask read write) answer)) := by
  have hs := run_sound h0 h hc
  constructor
  · intro evp ev evs answer hev
    unfold Server.AddFails
    generalize hr : s.ctlError (.add { events := evs, fd := ev.sock }) ev.sock answer = r
    obtain ⟨heffect, hsame⟩ := inserted_stores s evp ev evs r
    refine ⟨_, _, insertEvent_spec hs hev evs answer hr, ?_, reports_iff heffect hsame⟩
    intro hdone
    exact heffect (not_not.1 hdone)
  · intro sock read write answer
    unfold Server.ModFails
    generalize hr :
      s.ctlError (.mod { events := enableMask read write, fd := sock }) sock answer = r
    obtain ⟨heffect, hsame⟩ := modded_stores s sock (enableMask read write) r
    refine ⟨_, _, enableRW_spec s sock read write answer hr, ?_, reports_iff heffect hsame⟩
    intro hdone
    exact heffect (not_not.1 hdone)

/-- A socket 5 is opened, and its `Event` made. -/
def connected : List Call := [.socket 5, .new (connEvent 5 (some 0))]

/-- The listening socket 3 is registered, and the socket 5 is not. -/
def Server.Connected (s : Server) : Prop :=
  s.heap 0 = some (listenEvent 3 (some 0)) ∧ s.heap 1 = some (connEvent 5 (some 0)) ∧
    s.ctlError (.add { events := epollIn, fd := 3 }) 3 none = some .eexist ∧
    s.ctlError (.add { events := epollIn, fd := 5 }) 5 none = none ∧
    s.ctlError (.mod { events := enableMask true true, fd := 3 }) 3 none = none

instance (s : Server) : Decidable s.Connected := inferInstanceAs (Decidable (_ ∧ _))

theorem exists_connected : ∃ (st st' : Loop) (s : Server), Started st ∧ Run Loop.Steps st [] st' ∧
    Run Server.Calls st'.srv connected s ∧ s.Connected := by
  obtain ⟨st, st', hmain, hrun, hp⟩ := exists_run .good []
    (p := fun st => (exec (fun s c => (Server.call s c).toOption) st.srv connected).any
      fun s => decide (Server.Connected s)) (by decide +kernel)
  obtain ⟨s, hs, hconnected⟩ := exists_of_any hp
  exact ⟨st, st', s, ⟨_, _, _, _, _, _, hmain⟩, hrun, exec_ok hs, hconnected⟩

/-- A second registration of the listening socket is reported as it should be. -/
theorem reports_iff_fails_connected : ∃ (s t : Server) (ret : Option Bool),
    s.insertEvent 0 epollIn none = .ok (t, ret) ∧ Reports ret (s.AddFails (listenEvent 3 (some 0))
      epollIn none) (t.Inserted 0 (listenEvent 3 (some 0)) epollIn) (s.SameStores t) := by
  obtain ⟨st, st', s, h0, hrun, hcalls, hev, -, hexist, -, -⟩ := exists_connected
  obtain ⟨t, ret, hins, -, hiff⟩ := (reports_iff_fails h0 hrun hcalls).1 0 _ epollIn none hev
  refine ⟨s, t, ret, hins, hiff.2 ?_⟩
  unfold Server.AddFails
  rw [show (listenEvent 3 (some 0)).sock = 3 from rfl, hexist]
  exact Option.some_ne_none _

/-- The first registration of the socket 5 takes effect, and so does the change of the mask of the
    listening socket; neither returns a value. -/
theorem success_not_reported : ∃ (st st' : Loop) (s t u : Server), Started st ∧
    Run Loop.Steps st [] st' ∧ Run Server.Calls st'.srv connected s ∧
    s.insertEvent 1 epollIn none = .ok (t, none) ∧
    t.Inserted 1 (connEvent 5 (some 0)) epollIn ∧
    s.enableRW 3 true true none = (u, none) ∧ u.Enabled 3 (enableMask true true) := by
  obtain ⟨st, st', s, h0, hrun, hcalls, -, hev, -, hadd, hmod⟩ := exists_connected
  have hs := run_sound h0 hrun hcalls
  refine ⟨st, st', s, _, _, h0, hrun, hcalls, insertEvent_spec hs hev epollIn none hadd, ?_,
    enableRW_spec s 3 true true none hmod, ?_⟩
  · exact (inserted_stores s 1 (connEvent 5 (some 0)) epollIn none).1 rfl
  · exact (modded_stores s 3 (enableMask true true) none).1 rfl

end SystemCallLearn.Reactor
