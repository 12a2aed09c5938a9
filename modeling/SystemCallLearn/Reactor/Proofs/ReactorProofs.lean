import SystemCallLearn.Reactor.Server

/-!
# The registry invariant and what each call does to the process

`Server.Inv` ties the map `events` to the interest list, the open descriptors and the heap. On a
process that satisfies it every call of a callback on a registered `Event` ends in one of a few
states given here as functions (`touched`, `removed`, `modded`, `accepted`), and each of these keeps
the invariant.
-/

namespace SystemCallLearn.Reactor

open SystemCallLearn.Posix

/-! ## The invariant -/

/-- The callbacks of an accepted connection. -/
def Event.IsConn (ev : Event) : Prop :=
  ev.recver = some .recver ∧ ev.sender = some .sender ∧ ev.errer = some .errorer

/-- The callbacks of the listening socket, which has nothing to send. -/
def Event.IsListen (ev : Event) : Prop :=
  ev.recver = some .accepter ∧ ev.sender = none ∧ ev.outbuffer = []

/-- The `Event`s deleted, the last one first. -/
def deletions (log : List Action) : List EventPtr :=
  log.filterMap fun
    | .delete evp => some evp
    | _ => none

/-- The map, the interest list, the open descriptors and the heap agree. -/
structure Server.Agrees (s : Server) : Prop where
  keys : ∀ fd, (s.events fd).isSome = (s.interest fd).isSome
  opened : ∀ fd evp, s.events fd = some evp → s.opened fd = true
  stored : ∀ fd evp, s.events fd = some evp →
    ∃ ev, s.heap evp = some ev ∧ ev.sock = fd ∧ ev.R = some s.this
  distinct : ∀ fd fd' evp, s.events fd = some evp → s.events fd' = some evp → fd = fd'
  deleted : ∀ fd evp, s.events fd = some evp → evp ∉ deletions s.log

/-- The invariant of the process: it agrees, entries of the interest list have their descriptor as
    data, addresses are used once, and an `Event` is deleted once and then off the heap. -/
structure Server.Inv (s : Server) : Prop extends s.Agrees where
  data : ∀ fd e, s.interest fd = some e → e.fd = fd
  fresh : ∀ evp, s.next ≤ evp → s.heap evp = none
  gone : ∀ evp, evp ∈ deletions s.log → s.heap evp = none ∧ evp < s.next
  once : (deletions s.log).Nodup
  kinds : ∀ evp ev, s.heap evp = some ev → ev.IsConn ∨ ev.IsListen

/-- The map and the interest list have the same keys, which are open descriptors. -/
structure Server.Sound (s : Server) : Prop where
  keys : ∀ fd, (s.events fd).isSome = (s.interest fd).isSome
  opened : ∀ fd, (s.interest fd).isSome = true → s.opened fd = true

/-- `ev` is the live `Event` at `evp`, stored under its own descriptor. -/
structure Server.Registered (s : Server) (evp : EventPtr) (ev : Event) : Prop where
  live : s.heap evp = some ev
  stored : s.events ev.sock = some evp

theorem Server.Inv.registered {s : Server} (hs : s.Inv) {fd : Int} {evp : EventPtr}
    (h : s.events fd = some evp) :
    ∃ ev, s.Registered evp ev ∧ ev.sock = fd ∧ ev.R = some s.this := by
  obtain ⟨ev, hev, hsock, hR⟩ := hs.stored fd evp h
  exact ⟨ev, ⟨hev, by rwa [hsock]⟩, hsock, hR⟩

section States

variable {s t : Server} {evp evp' : EventPtr} {ev : Event} {fd : Int} {answer : Option Errno}

theorem Server.Inv.sound (hs : s.Inv) : s.Sound where
  keys := hs.keys
  opened := by
    intro fd hfd
    rw [← hs.keys fd] at hfd
    obtain ⟨evp, hevp⟩ := Option.isSome_iff_exists.1 hfd
    exact hs.opened fd evp hevp

theorem Server.Inv.interest (hs : s.Inv) (hr : s.Registered evp ev) :
    ∃ e, s.interest ev.sock = some e := by
  have hkey := hs.keys ev.sock
  rw [hr.stored] at hkey
  exact Option.isSome_iff_exists.1 hkey.symm

/-- A descriptor that is not open is neither in the map nor in the interest list. -/
theorem Server.Inv.unregistered (hs : s.Inv) (h : s.opened fd = false) :
    s.events fd = none ∧ s.interest fd = none := by
  have hev : s.events fd = none := by
    cases he : s.events fd with
    | none => rfl
    | some evp =>
      have hopen := hs.opened fd evp he
      rw [h] at hopen
      cases hopen
  have hkey := hs.keys fd
  rw [hev] at hkey
  exact ⟨hev, by simpa using hkey⟩

theorem Server.Inv.lt_next (hs : s.Inv) (h : s.heap evp = some ev) : evp < s.next := by
  by_contra hge
  have hnone := hs.fresh evp (Nat.le_of_not_lt hge)
  rw [h] at hnone
  cases hnone

theorem Server.Inv.notMem_deletions (hs : s.Inv) (h : s.heap evp = some ev) :
    evp ∉ deletions s.log := by
  intro hmem
  have hnone := (hs.gone evp hmem).1
  rw [h] at hnone
  cases hnone

theorem Server.Inv.ne_next (hs : s.Inv) (h : s.heap evp = some ev) : evp ≠ s.next :=
  Nat.ne_of_lt (hs.lt_next h)

theorem Server.Inv.next_new (hs : s.Inv) (fd : Int) : s.events fd ≠ some s.next := by
  intro h
  obtain ⟨ev₀, hev₀, -⟩ := hs.stored fd _ h
  exact hs.ne_next hev₀ rfl

/-! ## The states that the calls end in -/

/-- The buffers of an `Event` are changed, with the actions `acts`. -/
def Server.touched (s : Server) (evp : EventPtr) (ev : Event) (errno : Errno)
    (acts : List Action) : Server :=
  { s with
    heap := Function.update s.heap evp (some ev)
    errno := errno
    log := acts ++ s.log }

/-- An `Event` is deregistered, closed and deleted. -/
def Server.removed (s : Server) (evp : EventPtr) (fd : Int) : Server :=
  { s with
    events := Function.update s.events fd none
    heap := Function.update s.heap evp none
    opened := Function.update s.opened fd false
    interest := Function.update s.interest fd none
    log := .delete evp :: s.log }

/-- The mask of a registered descriptor is changed, if the kernel does it. -/
def Server.modded (s : Server) (fd : Int) (mask : UInt32) : Option Errno → Server
  | none =>
    { s with
      interest := Function.update s.interest fd (some { events := mask, fd := fd })
      log := .mod fd mask true :: s.log }
  | some e => { s with errno := e, log := .mod fd mask false :: s.log }

/-- An `Event` is registered, if the kernel does it. -/
def Server.inserted (s : Server) (evp : EventPtr) (fd : Int) (evs : UInt32) :
    Option Errno → Server
  | none =>
    { s with
      events := Function.update s.events fd (some evp)
      interest := Function.update s.interest fd (some { events := evs, fd := fd }) }
  | some e => { s with errno := e }

/-- The descriptor `fd` is accepted, and registered if the kernel does it. -/
def Server.accepted (s : Server) (fd : Int) (answer : Option Errno) : Server :=
  ((s.openSock fd).new (connEvent fd (some s.this))).1.inserted s.next fd (epollIn ||| epollEt)
    answer

/-- How a callback of a connection ends. -/
def Server.finished (s : Server) (evp : EventPtr) (fd : Int) (mod : Option Errno) :
    Next → Server
  | .nothing => s
  | .errer => s.removed evp fd
  | .enableRW read write => s.modded fd (enableMask read write) mod

/-! ## The calls end there -/

theorem deref_eq (h : s.heap evp = some ev) : s.deref evp = .ok ev := by
  simp [Server.deref, h]

theorem through_eq {R : Option ReactorPtr} (h : R = some s.this) : s.through R = .ok () := by
  simp [Server.through, h]

/-- What is returned: nothing behind a success. -/
def report : Option Errno → Option Bool
  | some _ => some false
  | none => none

theorem ctlError_add {e : EpollEvent} (h : s.ctlError (.add e) fd answer = none) :
    s.opened fd = true ∧ s.interest fd = none := by
  unfold Server.ctlError at h
  split_ifs at h with hopen
  refine ⟨hopen, ?_⟩
  cases hi : s.interest fd with
  | none => rfl
  | some e' => simp [hi] at h

theorem ctlError_mod {e : EpollEvent} (h : s.ctlError (.mod e) fd answer = none) :
    s.opened fd = true ∧ (s.interest fd).isSome = true := by
  unfold Server.ctlError at h
  split_ifs at h with hopen
  refine ⟨hopen, ?_⟩
  cases hi : s.interest fd with
  | none => simp [hi] at h
  | some e' => rfl

/-- `InsertEvent` registers the `Event` if `epoll_ctl` succeeds: no other is in its place. -/
theorem insertEvent_spec (hs : s.Sound) (hev : s.heap evp = some ev) (evs : UInt32)
    (answer : Option Errno) {r : Option Errno}
    (hr : s.ctlError (.add { events := evs, fd := ev.sock }) ev.sock answer = r) :
    s.insertEvent evp evs answer = .ok (s.inserted evp ev.sock evs r, report r) := by
  simp only [Server.insertEvent, deref_eq hev, Exec.ok_bind, Server.epollCtl, hr]
  cases r with
  | some e => rfl
  | none =>
    obtain ⟨-, hi⟩ := ctlError_add hr
    have hkey := hs.keys ev.sock
    rw [hi] at hkey
    have hfree : s.events ev.sock = none := by simpa using hkey
    simp [hfree, Server.inserted, report, CtlOp.entry]

theorem enableRW_spec (s : Server) (sock : Int) (read write : Bool) (answer : Option Errno)
    {r : Option Errno}
    (hr : s.ctlError (.mod { events := enableMask read write, fd := sock }) sock answer = r) :
    s.enableRW sock read write answer =
      (s.modded sock (enableMask read write) r, report r) := by
  simp only [Server.enableRW, Server.epollCtl, hr]
  cases r <;> rfl

/-- `DeleteEvent` takes out what is stored under the descriptor, whichever `Event` that is. -/
theorem deleteEvent_spec (hs : s.Sound) (hev : s.heap evp = some ev)
    (hstored : s.events ev.sock = some evp') :
    s.deleteEvent evp = .ok (s.removed evp ev.sock) := by
  have hkey := hs.keys ev.sock
  rw [hstored] at hkey
  obtain ⟨e, he⟩ := Option.isSome_iff_exists.1 hkey.symm
  have hopen := hs.opened ev.sock hkey.symm
  simp [Server.deleteEvent, deref_eq hev, hstored, Server.epollCtl, Server.ctlError, hopen, he,
    Server.close, Server.delete, hev, Server.removed, CtlOp.entry]

theorem deleteEvent_eq (hs : s.Inv) (hr : s.Registered evp ev) :
    s.deleteEvent evp = .ok (s.removed evp ev.sock) :=
  deleteEvent_spec hs.sound hr.live hr.stored

theorem enableRW_eq (hs : s.Inv) (hr : s.Registered evp ev) (read write : Bool)
    (answer : Option Errno) :
    (s.enableRW ev.sock read write answer).1 =
      s.modded ev.sock (enableMask read write) answer := by
  obtain ⟨e, he⟩ := hs.interest hr
  have hopen := hs.opened _ _ hr.stored
  have hctl : s.ctlError (.mod { events := enableMask read write, fd := ev.sock }) ev.sock answer =
      answer := by
    simp [Server.ctlError, hopen, he]
  rw [enableRW_spec s ev.sock read write answer hctl]

/-- `InsertEvent` of an `Event` whose descriptor is open and not registered. -/
theorem insertEvent_eq (hs : s.Inv) (hev : s.heap evp = some ev)
    (hopen : s.opened ev.sock = true) (hfree : s.events ev.sock = none) (evs : UInt32)
    (answer : Option Errno) :
    ∃ b, s.insertEvent evp evs answer = .ok (s.inserted evp ev.sock evs answer, b) := by
  have hi : s.interest ev.sock = none := by
    have hkey := hs.keys ev.sock
    rw [hfree] at hkey
    simpa using hkey.symm
  have hctl : s.ctlError (.add { events := evs, fd := ev.sock }) ev.sock answer = answer := by
    simp [Server.ctlError, hopen, hi]
  exact ⟨_, insertEvent_spec hs.sound hev evs answer hctl⟩

/-- The end of a callback of a connection. -/
theorem finish_eq (hs : s.Inv) (hr : s.Registered evp ev) (hconn : ev.IsConn)
    (hR : ev.R = some s.this) (next : Next) (mod : Option Errno) :
    s.finish evp next mod = .ok (s.finished evp ev.sock mod next) := by
  simp only [Server.finish, deref_eq hr.live, Exec.ok_bind]
  cases next with
  | nothing => rfl
  | errer =>
    simp only [hconn.2.2, Server.errorer, deref_eq hr.live, Exec.ok_bind, through_eq hR,
      deleteEvent_eq hs hr]
    rfl
  | enableRW read write =>
    simp only [through_eq hR, Exec.ok_bind, enableRW_eq hs hr]
    rfl

/-! ## The states keep the invariant -/

/-- Only what is kept for one descriptor changes. -/
theorem Server.Sound.change (hs : s.Sound) (fd : Int)
    (hother : ∀ fd', fd' ≠ fd → t.events fd' = s.events fd' ∧ t.interest fd' = s.interest fd' ∧
      t.opened fd' = s.opened fd')
    (hkey : (t.events fd).isSome = (t.interest fd).isSome)
    (hopen : (t.interest fd).isSome = true → t.opened fd = true) : t.Sound := by
  constructor
  · intro fd'
    by_cases hne : fd' = fd
    · rw [hne]
      exact hkey
    · obtain ⟨hevents, hinterest, -⟩ := hother fd' hne
      rw [hevents, hinterest]
      exact hs.keys fd'
  · intro fd' hfd
    by_cases hne : fd' = fd
    · rw [hne] at hfd ⊢
      exact hopen hfd
    · obtain ⟨-, hinterest, hopened⟩ := hother fd' hne
      rw [hinterest] at hfd
      rw [hopened]
      exact hs.opened fd' hfd

theorem sound_inserted (hs : s.Sound) (evp : EventPtr) (evs : UInt32) {r : Option Errno}
    (hr : r = none → s.opened fd = true) : (s.inserted evp fd evs r).Sound := by
  cases r with
  | some e => exact ⟨hs.keys, hs.opened⟩
  | none =>
    refine hs.change fd ?_ ?_ fun _ => hr rfl
    · intro fd' hne
      simp [Server.inserted, Function.update_of_ne hne]
    · simp [Server.inserted]

theorem sound_modded (hs : s.Sound) (mask : UInt32) {r : Option Errno}
    (hr : r = none → (s.interest fd).isSome = true) : (s.modded fd mask r).Sound := by
  cases r with
  | some e => exact ⟨hs.keys, hs.opened⟩
  | none =>
    refine hs.change fd ?_ ?_ fun _ => hs.opened fd (hr rfl)
    · intro fd' hne
      simp [Server.modded, Function.update_of_ne hne]
    · simpa [Server.modded] using (hs.keys fd).trans (hr rfl)

theorem sound_removed (hs : s.Sound) (evp : EventPtr) (fd : Int) : (s.removed evp fd).Sound := by
  apply hs.change fd
  · intro fd' hne
    simp [Server.removed, Function.update_of_ne hne]
  · simp [Server.removed]
  · simp [Server.removed]

/-- The change of buffers leaves the `Event` where and what it is. -/
structure Event.Same (ev ev' : Event) : Prop where
  sock : ev'.sock = ev.sock
  R : ev'.R = ev.R
  kind : (ev.IsConn → ev'.IsConn) ∧ (ev.IsListen → ev'.IsListen)

theorem Server.Registered.touched (hr : s.Registered evp ev) {ev' : Event} (hsame : ev.Same ev')
    (errno : Errno) (acts : List Action) : (s.touched evp ev' errno acts).Registered evp ev' :=
  ⟨by simp [Server.touched], by simpa [Server.touched, hsame.sock] using hr.stored⟩

theorem inv_touched (hs : s.Inv) (hr : s.Registered evp ev) {ev' : Event} (hsame : ev.Same ev')
    (errno : Errno) {acts : List Action} (hacts : deletions acts = []) :
    (s.touched evp ev' errno acts).Inv := by
  have hlog : deletions (s.touched evp ev' errno acts).log = deletions s.log := by
    show deletions (acts ++ s.log) = deletions s.log
    rw [deletions, List.filterMap_append]
    simpa [deletions] using hacts
  refine ⟨⟨hs.keys, hs.opened, ?_, hs.distinct, ?_⟩, hs.data, ?_, ?_, ?_, ?_⟩
  · intro fd p hp
    obtain ⟨ev₀, hev₀, hsock, hR⟩ := hs.stored fd p hp
    by_cases hpe : p = evp
    · subst hpe
      obtain rfl : ev = ev₀ := Option.some.inj (hr.live.symm.trans hev₀)
      exact ⟨ev', by simp [Server.touched], hsame.sock.trans hsock, hsame.R.trans hR⟩
    · exact ⟨ev₀, by simpa [Server.touched, Function.update_of_ne hpe] using hev₀, hsock, hR⟩
  · intro fd p hp
    rw [hlog]
    exact hs.deleted fd p hp
  · intro p hp
    have hpe : p ≠ evp := Nat.ne_of_gt (Nat.lt_of_lt_of_le (hs.lt_next hr.live) hp)
    simpa [Server.touched, Function.update_of_ne hpe] using hs.fresh p hp
  · intro p hp
    rw [hlog] at hp
    obtain ⟨hnone, hlt⟩ := hs.gone p hp
    have hpe : p ≠ evp := by
      rintro rfl
      exact hs.notMem_deletions hr.live hp
    exact ⟨by simpa [Server.touched, Function.update_of_ne hpe] using hnone, hlt⟩
  · rw [hlog]
    exact hs.once
  · intro p ev₀ hp
    simp only [Server.touched, Function.update_apply] at hp
    split_ifs at hp
    · obtain rfl := Option.some.inj hp
      exact (hs.kinds _ _ hr.live).imp hsame.kind.1 hsame.kind.2
    · exact hs.kinds p ev₀ hp

theorem inv_errno (hs : s.Inv) (errno : Errno) : Server.Inv { s with errno := errno } :=
  ⟨⟨hs.keys, hs.opened, hs.stored, hs.distinct, hs.deleted⟩, hs.data, hs.fresh, hs.gone, hs.once,
    hs.kinds⟩

theorem inv_removed (hs : s.Inv) (hr : s.Registered evp ev) : (s.removed evp ev.sock).Inv := by
  -- a key that is left holds another `Event`
  have hleft : ∀ fd p, (s.removed evp ev.sock).events fd = some p →
      fd ≠ ev.sock ∧ s.events fd = some p ∧ p ≠ evp := by
    intro fd p hp
    simp only [Server.removed, Function.update_apply] at hp
    split_ifs at hp with hfd
    refine ⟨hfd, hp, ?_⟩
    rintro rfl
    exact hfd (hs.distinct _ _ _ hp hr.stored)
  refine ⟨⟨?_, ?_, ?_, ?_, ?_⟩, ?_, ?_, ?_, ?_, ?_⟩
  · exact (sound_removed hs.sound evp ev.sock).keys
  · intro fd p hp
    obtain ⟨hfd, hp', -⟩ := hleft fd p hp
    simpa [Server.removed, Function.update_of_ne hfd] using hs.opened fd p hp'
  · intro fd p hp
    obtain ⟨-, hp', hpe⟩ := hleft fd p hp
    simpa [Server.removed, Function.update_of_ne hpe] using hs.stored fd p hp'
  · intro fd fd' p hp hp'
    exact hs.distinct fd fd' p (hleft fd p hp).2.1 (hleft fd' p hp').2.1
  · intro fd p hp
    obtain ⟨-, hp', hpe⟩ := hleft fd p hp
    exact fun hmem => (List.mem_cons.1 hmem).elim hpe (hs.deleted fd p hp')
  · intro fd e he
    simp only [Server.removed, Function.update_apply] at he
    split_ifs at he
    exact hs.data fd e he
  · intro p hp
    simp only [Server.removed, Function.update_apply]
    split_ifs
    · rfl
    · exact hs.fresh p hp
  · intro p hp
    simp only [Server.removed, Function.update_apply]
    rcases List.mem_cons.1 hp with rfl | hp
    · exact ⟨if_pos rfl, hs.lt_next hr.live⟩
    · obtain ⟨hnone, hlt⟩ := hs.gone p hp
      refine ⟨?_, hlt⟩
      split_ifs
      · rfl
      · exact hnone
  · exact List.nodup_cons.2 ⟨hs.notMem_deletions hr.live, hs.once⟩
  · intro p ev₀ hp
    simp only [Server.removed, Function.update_apply] at hp
    split_ifs at hp
    exact hs.kinds p ev₀ hp

theorem inv_modded (hs : s.Inv) (hr : s.Registered evp ev) (mask : UInt32)
    (answer : Option Errno) : (s.modded ev.sock mask answer).Inv := by
  cases answer with
  | some e =>
    exact ⟨⟨hs.keys, hs.opened, hs.stored, hs.distinct, hs.deleted⟩, hs.data, hs.fresh, hs.gone,
      hs.once, hs.kinds⟩
  | none =>
    refine ⟨⟨?_, hs.opened, hs.stored, hs.distinct, hs.deleted⟩, ?_,
      hs.fresh, hs.gone, hs.once, hs.kinds⟩
    · obtain ⟨e, he⟩ := hs.interest hr
      exact (sound_modded hs.sound mask fun _ => by rw [he]; rfl).keys
    · intro fd e he
      simp only [Server.modded, Function.update_apply] at he
      split_ifs at he with hfd
      · obtain rfl := Option.some.inj he
        exact hfd.symm
      · exact hs.data fd e he

theorem connEvent_isConn (fd : Int) (R : Option ReactorPtr) : (connEvent fd R).IsConn :=
  ⟨rfl, rfl, rfl⟩

theorem inv_openSock (hs : s.Inv) (fd : Int) : (s.openSock fd).Inv := by
  refine ⟨⟨hs.keys, ?_, hs.stored, hs.distinct, hs.deleted⟩, hs.data, hs.fresh,
    hs.gone, hs.once, hs.kinds⟩
  intro fd' p hp
  simp only [Server.openSock, Function.update_apply]
  split_ifs
  · rfl
  · exact hs.opened fd' p hp

theorem inv_new (hs : s.Inv) (ev : Event) (hkind : ev.IsConn ∨ ev.IsListen) :
    (s.new ev).1.Inv := by
  refine ⟨⟨hs.keys, hs.opened, ?_, hs.distinct, hs.deleted⟩, hs.data, ?_, ?_, hs.once, ?_⟩
  · intro fd p hp
    obtain ⟨ev₀, hev₀, hsock, hR⟩ := hs.stored fd p hp
    refine ⟨ev₀, ?_, hsock, hR⟩
    simpa [Server.new, Function.update_of_ne (hs.ne_next hev₀)] using hev₀
  · intro p hp
    simp only [Server.new] at hp ⊢
    rw [Function.update_of_ne (Nat.ne_of_gt hp)]
    exact hs.fresh p (Nat.le_of_succ_le hp)
  · intro p hp
    obtain ⟨hnone, hlt⟩ := hs.gone p hp
    simp only [Server.new]
    rw [Function.update_of_ne (Nat.ne_of_lt hlt)]
    exact ⟨hnone, Nat.lt_succ_of_lt hlt⟩
  · intro p ev₀ hp
    simp only [Server.new, Function.update_apply] at hp
    split_ifs at hp
    · obtain rfl := Option.some.inj hp
      exact hkind
    · exact hs.kinds p ev₀ hp

/-- Registering an `Event` that is nowhere stored under its own open descriptor. -/
theorem inv_inserted (hs : s.Inv) (hev : s.heap evp = some ev) (hR : ev.R = some s.this)
    (hnew : ∀ fd, s.events fd ≠ some evp) (hopen : s.opened ev.sock = true) (evs : UInt32)
    (answer : Option Errno) : (s.inserted evp ev.sock evs answer).Inv := by
  cases answer with
  | some e => exact inv_errno hs e
  | none =>
    refine ⟨⟨?_, ?_, ?_, ?_, ?_⟩, ?_, hs.fresh, hs.gone, hs.once, hs.kinds⟩
    · exact (sound_inserted hs.sound evp evs fun _ => hopen).keys
    · intro fd p hp
      simp only [Server.inserted, Function.update_apply] at hp
      split_ifs at hp with h
      · exact h ▸ hopen
      · exact hs.opened fd p hp
    · intro fd p hp
      simp only [Server.inserted, Function.update_apply] at hp
      split_ifs at hp with h
      · obtain rfl := Option.some.inj hp
        exact ⟨ev, hev, h.symm, hR⟩
      · exact hs.stored fd p hp
    · intro fd₁ fd₂ p hp₁ hp₂
      simp only [Server.inserted, Function.update_apply] at hp₁ hp₂
      split_ifs at hp₁ hp₂ with h₁ h₂ h₂
      · exact h₁.trans h₂.symm
      · exact absurd (hp₂.trans hp₁.symm) (hnew fd₂)
      · exact absurd (hp₁.trans hp₂.symm) (hnew fd₁)
      · exact hs.distinct fd₁ fd₂ p hp₁ hp₂
    · intro fd p hp
      simp only [Server.inserted, Function.update_apply] at hp
      split_ifs at hp
      · obtain rfl := Option.some.inj hp
        exact hs.notMem_deletions hev
      · exact hs.deleted fd p hp
    · intro fd e he
      simp only [Server.inserted, Function.update_apply] at he
      split_ifs at he with h
      · obtain rfl := Option.some.inj he
        exact h.symm
      · exact hs.data fd e he

theorem inv_accepted (hs : s.Inv) (fd : Int) (answer : Option Errno) :
    (s.accepted fd answer).Inv := by
  have hn : ((s.openSock fd).new (connEvent fd (some s.this))).1.Inv :=
    inv_new (inv_openSock hs fd) _ (.inl (connEvent_isConn fd _))
  have hheap : ((s.openSock fd).new (connEvent fd (some s.this))).1.heap s.next =
      some (connEvent fd (some s.this)) := Function.update_self _ _ _
  have hopen : ((s.openSock fd).new (connEvent fd (some s.this))).1.opened fd = true := by
    simp [Server.new, Server.openSock]
  exact inv_inserted hn hheap rfl (fun fd' => hs.next_new fd') hopen _ _

theorem inv_finished (hs : s.Inv) (hr : s.Registered evp ev) (mod : Option Errno) (next : Next) :
    (s.finished evp ev.sock mod next).Inv := by
  cases next with
  | nothing => exact hs
  | errer => exact inv_removed hs hr
  | enableRW read write => exact inv_modded hs hr _ _

end States

end SystemCallLearn.Reactor
