import SystemCallLearn.Reactor.Proofs.RefineProofs
import SystemCallLearn.Reactor.Proofs.AccepterProofs
import Mathlib.Data.List.Nodup

/-!
# What the server has open and allocated

Over a whole run every open descriptor and every live `Event` has an owner. It was there when `main`
entered its loop, it belongs to a registered connection, or it belongs to a connection whose
registration failed in `Accepter` (`Loop.lost`): these are never closed, freed or served again.
-/

namespace SystemCallLearn.Reactor

open SystemCallLearn.Posix SystemCallLearn.Lib

/-! ## The connections that are lost -/

/-- The descriptors that a call of `Accepter` cannot register, with the `Event` of each; `p` is the
    next `Event`. -/
def lostBy : EventPtr → List AcceptResult → List (Int × EventPtr)
  | _, [] => []
  | _, .err _ :: _ => []
  | p, .ok fd add :: rest => (if add = none then [] else [(fd, p)]) ++ lostBy (p + 1) rest

/-- What a step of the loop loses. -/
def Loop.losesIn (st : Loop) (i : Input) : List (Int × EventPtr) :=
  match i, st.revs with
  | .read a, rev :: _ =>
    match st.srv.readCall rev with
    | .ok (some (.accepter, _)) => lostBy st.srv.next a.accept
    | _ => []
  | _, _ => []

/-- What a run loses. -/
def Loop.lost (st : Loop) (is : List Input) : List (Int × EventPtr) :=
  emitted (fun st i => (st.step i).toOption) Loop.losesIn st is

/-- The balance of the process `s`, which was `b` when the loop started and has lost the connections
    `lost`. -/
structure Balanced (b : Server) (lost : List (Int × EventPtr)) (s : Server) : Prop where
  opened : ∀ fd, s.opened fd = true ↔
    b.opened fd = true ∨ (s.events fd).isSome = true ∨ ∃ p, (fd, p) ∈ lost
  live : ∀ p, (s.heap p).isSome = true ↔
    (b.heap p).isSome = true ∨ (∃ fd, s.events fd = some p) ∨ ∃ fd, (fd, p) ∈ lost
  conn : ∀ p ev, s.Registered p ev → ev.IsConn → b.opened ev.sock = false ∧ b.heap p = none
  apart : ∀ fd p, (fd, p) ∈ lost →
    b.opened fd = false ∧ s.events fd = none ∧ b.heap p = none ∧ ∀ fd', s.events fd' ≠ some p
  fds : (lost.map Prod.fst).Nodup
  ptrs : (lost.map Prod.snd).Nodup

section Balanced

variable {b s t : Server} {lost : List (Int × EventPtr)} {evp : EventPtr} {ev : Event}

/-- Neither the map, nor the heap, nor the open descriptors change, up to the contents of the
    `Event`s. -/
theorem Balanced.frame (h : Balanced b lost s) (hevents : t.events = s.events)
    (hopened : t.opened = s.opened)
    (hheap : ∀ p ev, t.heap p = some ev → ∃ ev', s.heap p = some ev' ∧ ev'.sock = ev.sock ∧
      (ev.IsConn → ev'.IsConn))
    (hlive : ∀ p, (t.heap p).isSome = (s.heap p).isSome) : Balanced b lost t := by
  refine ⟨?_, ?_, ?_, ?_, h.fds, h.ptrs⟩
  · rw [hopened, hevents]
    exact h.opened
  · intro p
    rw [hlive, hevents]
    exact h.live p
  · intro p ev hr hconn
    obtain ⟨ev', hev', hsock, hconn'⟩ := hheap p ev hr.live
    have hr' : s.Registered p ev' := ⟨hev', by rw [hsock, ← hevents, hr.stored]⟩
    rw [← hsock]
    exact h.conn p ev' hr' (hconn' hconn)
  · rw [hevents]
    exact h.apart

theorem Balanced.errno (h : Balanced b lost s) (e : Errno) :
    Balanced b lost { s with errno := e } :=
  h.frame rfl rfl (fun _ ev hev => ⟨ev, hev, rfl, id⟩) fun _ => rfl

/-! ## The callbacks -/

theorem balanced_touched (h : Balanced b lost s) (hr : s.Registered evp ev) (hconn : ev.IsConn)
    {ev' : Event} (hsock : ev'.sock = ev.sock) (errno : Errno) (acts : List Action) :
    Balanced b lost (s.touched evp ev' errno acts) := by
  refine h.frame (t := s.touched evp ev' errno acts) rfl rfl ?_ ?_
  · intro p ev₀ hev₀
    simp only [Server.touched, Function.update_apply] at hev₀
    split_ifs at hev₀ with hp
    · obtain rfl := Option.some.inj hev₀
      rw [hp]
      exact ⟨ev, hr.live, hsock.symm, fun _ => hconn⟩
    · exact ⟨ev₀, hev₀, rfl, id⟩
  · intro p
    simp only [Server.touched, Function.update_apply]
    split_ifs with hp
    · rw [hp, hr.live]
      rfl
    · rfl

theorem balanced_modded (h : Balanced b lost s) (fd : Int) (mask : UInt32) (mod : Option Errno) :
    Balanced b lost (s.modded fd mask mod) := by
  cases mod <;>
    exact h.frame rfl rfl (fun _ ev hev => ⟨ev, hev, rfl, id⟩) fun _ => rfl

/-- The map loses the `Event` of the connection that ends, and no other. -/
theorem removed_stored (hs : s.Inv) (hr : s.Registered evp ev) {fd : Int} {p : EventPtr} :
    (s.removed evp ev.sock).events fd = some p ↔ s.events fd = some p ∧ p ≠ evp := by
  simp only [Server.removed, Function.update_apply]
  by_cases hfd : fd = ev.sock
  · subst hfd
    simp [hr.stored, eq_comm]
  · rw [if_neg hfd, iff_self_and]
    rintro hp rfl
    exact hfd (hs.distinct _ _ _ hp hr.stored)

/-- A connection that ends gives back its descriptor and its `Event`. -/
theorem balanced_removed (hs : s.Inv) (h : Balanced b lost s) (hr : s.Registered evp ev)
    (hconn : ev.IsConn) : Balanced b lost (s.removed evp ev.sock) := by
  obtain ⟨hboot, hold⟩ := h.conn evp ev hr hconn
  refine ⟨?_, ?_, ?_, ?_, h.fds, h.ptrs⟩
  · intro fd
    simp only [Server.removed, Function.update_apply]
    split_ifs with hfd
    · subst hfd
      have hlost : ¬ ∃ p, (ev.sock, p) ∈ lost := by
        rintro ⟨p, hp⟩
        have hnone := (h.apart _ _ hp).2.1
        rw [hr.stored] at hnone
        cases hnone
      simp [hboot, hlost]
    · exact h.opened fd
  · intro p
    simp only [removed_stored hs hr]
    by_cases hp : p = evp
    · subst hp
      have hlost : ¬ ∃ fd, (fd, p) ∈ lost := by
        rintro ⟨fd, hfd⟩
        exact (h.apart _ _ hfd).2.2.2 _ hr.stored
      have hfreed : (s.removed p ev.sock).heap p = none := Function.update_self _ _ _
      simp [hlost, hold, hfreed]
    · have hlive : (s.removed evp ev.sock).heap p = s.heap p := Function.update_of_ne hp _ _
      simp only [hlive, ne_eq, hp, not_false_eq_true, and_true]
      exact h.live p
  · intro p ev₀ hr₀ hconn₀
    obtain ⟨hstored, hne⟩ := (removed_stored hs hr).1 hr₀.stored
    have hlive : (s.removed evp ev.sock).heap p = s.heap p := Function.update_of_ne hne _ _
    exact h.conn p ev₀ ⟨hlive ▸ hr₀.live, hstored⟩ hconn₀
  · intro fd p hp
    obtain ⟨hfd, hnone, hne, hother⟩ := h.apart fd p hp
    refine ⟨hfd, ?_, hne, fun fd' hfd' => hother fd' ((removed_stored hs hr).1 hfd').1⟩
    simp only [Server.removed, Function.update_apply, hnone, ite_self]

theorem balanced_finished (hs : s.Inv) (h : Balanced b lost s) (hr : s.Registered evp ev)
    (hconn : ev.IsConn) (mod : Option Errno) (next : Next) :
    Balanced b lost (s.finished evp ev.sock mod next) := by
  cases next with
  | nothing => exact h
  | errer => exact balanced_removed hs h hr hconn
  | enableRW read write => exact balanced_modded h _ _ mod

/-! ## `Accepter` -/

/-- Nobody owns a new descriptor and a new `Event`. -/
theorem Balanced.fresh (hs : s.Inv) (h : Balanced b lost s) {fd : Int}
    (hfd : s.opened fd = false) :
    (b.opened fd = false ∧ ∀ p, (fd, p) ∉ lost) ∧
      b.heap s.next = none ∧ ∀ fd', (fd', s.next) ∉ lost := by
  have hclosed := h.opened fd
  have hnew := h.live s.next
  simp only [hfd, Bool.false_eq_true, false_iff, not_or, not_exists] at hclosed
  simp only [hs.fresh _ le_rfl, Option.isSome_none, Bool.false_eq_true, false_iff, not_or,
    not_exists] at hnew
  exact ⟨⟨by simpa using hclosed.1, hclosed.2.2⟩, by simpa using hnew.1, hnew.2.2⟩

/-- An accepted connection that is registered owns its descriptor and its `Event`. -/
theorem balanced_kept (hs : s.Inv) (h : Balanced b lost s) {fd : Int}
    (hfd : s.opened fd = false) : Balanced b lost (s.accepted fd none) := by
  have hnone : s.events fd = none := (hs.unregistered hfd).1
  obtain ⟨⟨hclosed, hunlost⟩, hnew, hunowned⟩ := h.fresh hs hfd
  have hevents : ∀ fd' p, (s.accepted fd none).events fd' = some p ↔
      s.events fd' = some p ∨ fd' = fd ∧ p = s.next := by
    intro fd' p
    have hupdate : (s.accepted fd none).events = Function.update s.events fd (some s.next) := rfl
    rw [hupdate, Function.update_apply]
    by_cases hfd' : fd' = fd
    · simp [hfd', hnone, eq_comm]
    · simp [hfd']
  refine ⟨?_, ?_, ?_, ?_, h.fds, h.ptrs⟩
  · intro fd'
    simp only [accepted_opened, Function.update_apply, Option.isSome_iff_exists, hevents]
    by_cases hfd' : fd' = fd
    · simp [hfd']
    · simp only [hfd', if_false, false_and, or_false]
      rw [h.opened, Option.isSome_iff_exists]
  · intro p
    simp only [accepted_heap_eq, Function.update_apply, hevents]
    by_cases hp : p = s.next
    · simp [hp]
    · simp only [hp, if_false, and_false, or_false]
      exact h.live p
  · intro p ev hr hconn
    have hlive := hr.live
    rw [accepted_heap_eq, Function.update_apply] at hlive
    split_ifs at hlive with hp
    · obtain rfl := Option.some.inj hlive
      exact ⟨hclosed, hp ▸ hnew⟩
    · rcases (hevents _ _).1 hr.stored with hstored | ⟨-, hp'⟩
      · exact h.conn p ev ⟨hlive, hstored⟩ hconn
      · exact absurd hp' hp
  · intro fd' p hlost
    obtain ⟨hboot, hnone', hold, hother⟩ := h.apart fd' p hlost
    refine ⟨hboot, Option.eq_none_iff_forall_ne_some.2 ?_, hold, ?_⟩
    · intro p' hp'
      rcases (hevents _ _).1 hp' with hstored | ⟨rfl, -⟩
      · rw [hnone'] at hstored
        cases hstored
      · exact hunlost p hlost
    · intro fd₀ hfd₀
      rcases (hevents _ _).1 hfd₀ with hstored | ⟨-, rfl⟩
      · exact hother fd₀ hstored
      · exact hunowned fd' hlost

/-- One that cannot be registered is lost with both. -/
theorem balanced_lost (hs : s.Inv) (h : Balanced b lost s) {fd : Int}
    (hfd : s.opened fd = false) (e : Errno) :
    Balanced b (lost ++ [(fd, s.next)]) (s.accepted fd (some e)) := by
  obtain ⟨⟨hclosed, hunlost⟩, hnew, hunowned⟩ := h.fresh hs hfd
  have hevents : (s.accepted fd (some e)).events = s.events := rfl
  have hmem : ∀ fd' p, (fd', p) ∈ lost ++ [(fd, s.next)] ↔
      (fd', p) ∈ lost ∨ fd' = fd ∧ p = s.next := by
    intro fd' p
    simp
  refine ⟨?_, ?_, ?_, ?_, ?_, ?_⟩
  · intro fd'
    simp only [accepted_opened, Function.update_apply, hevents, hmem]
    by_cases hfd' : fd' = fd
    · simp [hfd']
    · simp only [hfd', if_false, false_and, or_false]
      exact h.opened fd'
  · intro p
    simp only [accepted_heap_eq, Function.update_apply, hevents, hmem]
    by_cases hp : p = s.next
    · simp [hp]
    · simp only [hp, if_false, and_false, or_false]
      exact h.live p
  · intro p ev hr hconn
    have hlive := hr.live
    have hstored : s.events ev.sock = some p := hr.stored
    have hp : p ≠ s.next := by
      rintro rfl
      exact hs.next_new ev.sock hstored
    rw [accepted_heap_eq, Function.update_of_ne hp] at hlive
    exact h.conn p ev ⟨hlive, hstored⟩ hconn
  · intro fd' p hlost
    rcases (hmem _ _).1 hlost with hbefore | ⟨rfl, rfl⟩
    · exact h.apart fd' p hbefore
    · exact ⟨hclosed, (hs.unregistered hfd).1, hnew, hs.next_new⟩
  · rw [List.map_append, List.map_singleton, ← List.concat_eq_append, List.nodup_concat]
    refine ⟨?_, h.fds⟩
    intro hin
    obtain ⟨⟨fd', p⟩, hold, heq⟩ := List.mem_map.1 hin
    obtain rfl : fd' = fd := heq
    exact hunlost p hold
  · rw [List.map_append, List.map_singleton, ← List.concat_eq_append, List.nodup_concat]
    refine ⟨?_, h.ptrs⟩
    intro hin
    obtain ⟨⟨fd', p⟩, hold, heq⟩ := List.mem_map.1 hin
    obtain rfl : p = s.next := heq
    exact hunowned fd' hold

/-- One accepted connection is registered or lost. -/
theorem balanced_accepted (hs : s.Inv) (h : Balanced b lost s) {fd : Int}
    (hfd : s.opened fd = false) (add : Option Errno) :
    Balanced b (lost ++ if add = none then [] else [(fd, s.next)]) (s.accepted fd add) := by
  cases add with
  | none =>
    rw [if_pos rfl, List.append_nil]
    exact balanced_kept hs h hfd
  | some e =>
    rw [if_neg (Option.some_ne_none e)]
    exact balanced_lost hs h hfd e

/-- A call of `Accepter` registers its connections or loses them. -/
theorem balanced_accepter (hs : s.Inv) (h : Balanced b lost s) (hev : s.heap evp = some ev)
    (hR : ev.R = some s.this) {answers : List AcceptResult} (ht : s.accepter evp answers = .ok t) :
    Balanced b (lost ++ lostBy s.next answers) t := by
  induction answers generalizing s lost with
  | nil => cases ht
  | cons a rest ih =>
    cases a with
    | err e =>
      simp only [Server.accepter, deref_eq hev, Exec.ok_bind, Server.accept] at ht
      obtain rfl := Except.ok.inj ht
      rw [lostBy, List.append_nil]
      exact h.errno e
    | ok fd add =>
      by_cases hnew : 0 ≤ fd ∧ s.opened fd = false
      · rw [accepter_accepted hs hev hR hnew.1 hnew.2] at ht
        have hrest := ih (inv_accepted hs fd add) (balanced_accepted hs h hnew.2 add)
          (accepted_heap hs hev fd add) (by rw [accepted_this, hR]) ht
        rwa [accepted_next, List.append_assoc] at hrest
      · simp only [Server.accepter, deref_eq hev, Exec.ok_bind, Server.accept, if_neg hnew] at ht
        cases ht

end Balanced

/-! ## Runs -/

section Run

variable {st st' : Loop} {b : Server} {lost : List (Int × EventPtr)}

/-- The read block, with what it loses. -/
theorem balanced_readBlock (hst : st.Inv) (h : Balanced b lost st.srv) {rev : EpollEvent}
    {revs : List EpollEvent} (hrevs : st.revs = rev :: revs) {a : Answers} {t : Server}
    (ht : st.srv.readBlock rev a = .ok t) :
    Balanced b (lost ++ st.losesIn (.read a)) t := by
  obtain ⟨call, hcall, hfound⟩ := readCall_eq hst.srv rev
  simp only [Server.readBlock, hcall, Exec.ok_bind] at ht
  simp only [Loop.losesIn, hrevs, hcall]
  cases call with
  | none =>
    obtain rfl := Except.ok.inj ht
    simpa using h
  | some x =>
    obtain ⟨f, p⟩ := x
    obtain ⟨-, ev, hr, -, hR, hf⟩ := hfound f p rfl
    cases f with
    | accepter => exact balanced_accepter hst.srv h hr.live hR ht
    | recver =>
      have hconn := isConn_of_recver hst.srv hr.live hf
      obtain ⟨r, -, rfl⟩ := (server_recver_safe hst.srv hr hconn hR a).ok ht
      have hr' := hr.touched (same_buffers hconn r.inbuffer r.outbuffer) r.errno
        (if r.outbuffer = ev.outbuffer then [] else [.append p])
      rw [List.append_nil]
      exact balanced_finished (inv_received hst.srv hr hconn r)
        (balanced_touched h hr hconn (same_buffers hconn r.inbuffer r.outbuffer).sock _ _) hr'
        hconn _ _

theorem balanced_writeBlock (hst : st.Inv) (h : Balanced b lost st.srv) {rev : EpollEvent}
    {a : Answers} {t : Server} (ht : st.srv.writeBlock rev a = .ok t) : Balanced b lost t := by
  rcases writeBlock_cases hst.srv rev a with hcase | ⟨p, ev, hr, -, hR, hconn, hcase⟩
  · rw [hcase] at ht
    obtain rfl := Except.ok.inj ht
    exact h
  · rw [hcase] at ht
    obtain ⟨r, -, rfl⟩ := (server_sender_safe hst.srv hr hconn hR a).ok ht
    have hr' := hr.touched (same_buffers hconn ev.inbuffer r.outbuffer) r.errno
      (r.calls.map (Action.send ev.sock ev.outbuffer)).reverse
    exact balanced_finished (inv_sent hst.srv hr hconn r)
      (balanced_touched h hr hconn (same_buffers hconn ev.inbuffer r.outbuffer).sock _ _) hr'
      hconn _ _

/-- **The step lemma.** -/
theorem balanced_step (hst : st.Inv) (h : Balanced b lost st.srv) {i : Input}
    (hstep : st.step i = .ok st') : Balanced b (lost ++ st.losesIn i) st'.srv := by
  cases loop_moves hstep with
  | failed =>
    rw [show st.losesIn (.wait _) = [] from rfl, List.append_nil]
    exact h.errno _
  | reported =>
    rw [show st.losesIn (.wait _) = [] from rfl, List.append_nil]
    exact h
  | read hrevs _ ht => exact balanced_readBlock hst h hrevs ht
  | write hrevs _ ht =>
    rw [show st.losesIn (.write _) = [] from rfl, List.append_nil]
    exact balanced_writeBlock hst h ht

theorem balanced_started (h0 : Started st) : Balanced st.srv [] st.srv := by
  have hinv := (inv_started h0).srv
  have hlisten : ∀ ev p, st.srv.heap p = some ev → ¬ ev.IsConn := by
    obtain ⟨this, opened, flags, errno, argc, a, hmain⟩ := h0
    obtain ⟨fd, epfd, -, hsrv, -⟩ := main_eq hmain
    obtain ⟨flags', errno', hstarted⟩ := started_eq (Server.boot this opened flags errno) fd epfd a
    have hheap : st.srv.heap =
        Function.update (fun _ => none) 0 (some (listenEvent fd (some this))) := by
      rw [hsrv, hstarted]
      cases a.add <;> rfl
    intro ev p hev hconn
    rw [hheap, Function.update_apply] at hev
    split_ifs at hev
    obtain rfl := Option.some.inj hev
    cases hconn.1
  refine ⟨?_, ?_, ?_, fun _ _ hmem => (List.not_mem_nil hmem).elim, List.nodup_nil,
    List.nodup_nil⟩
  · intro fd
    refine ⟨.inl, ?_⟩
    rintro (hopen | hkey | ⟨p, hp⟩)
    · exact hopen
    · obtain ⟨p, hp⟩ := Option.isSome_iff_exists.1 hkey
      exact hinv.opened fd p hp
    · cases hp
  · intro p
    refine ⟨.inl, ?_⟩
    rintro (hlive | ⟨fd, hfd⟩ | ⟨fd, hfd⟩)
    · exact hlive
    · obtain ⟨ev, hev, -⟩ := hinv.stored fd p hfd
      rw [hev]
      rfl
    · cases hfd
  · intro p ev hr hconn
    exact absurd hconn (hlisten ev p hr.live)

/-- **The run lemma.** -/
theorem balanced_run {is : List Input} (h0 : Started st) (h : Run Loop.Steps st is st') :
    Balanced st.srv (st.lost is) st'.srv := by
  have hboth : st'.Inv ∧ Balanced st.srv (st.lost is) st'.srv := by
    refine h.history (I := fun lost t => t.Inv ∧ Balanced st.srv lost t.srv) loop_next ?_
      ⟨inv_started h0, balanced_started h0⟩
    rintro lost u i v ⟨hu, hbal⟩ hstep
    exact ⟨(loop_step hu i).ok hstep, balanced_step hu hbal hstep⟩
  exact hboth.2

/-! ## What is lost is not served -/

theorem lostBy_ge {n p : EventPtr} {fd : Int} {answers : List AcceptResult}
    (h : (fd, p) ∈ lostBy n answers) : n ≤ p := by
  induction answers generalizing n with
  | nil => cases h
  | cons a rest ih =>
    cases a with
    | err e => cases h
    | ok fd' add =>
      simp only [lostBy, List.mem_append] at h
      rcases h with h | h
      · split_ifs at h
        · cases h
        · obtain ⟨-, rfl⟩ := Prod.mk.inj (List.mem_singleton.1 h)
          exact le_rfl
      · exact Nat.le_of_succ_le (ih h)

theorem losesIn_ge {i : Input} {fd : Int} {p : EventPtr} (h : (fd, p) ∈ st.losesIn i) :
    st.srv.next ≤ p := by
  unfold Loop.losesIn at h
  split at h
  · split at h
    · exact lostBy_ge h
    · cases h
  · cases h

/-- Only a registered `Event` is called. -/
theorem callsOn_registered (hst : st.Inv) {p : EventPtr} {i : Input} (h : st.callsOn p i ≠ []) :
    ∃ fd, st.srv.events fd = some p := by
  have hmade : ∀ (s : Server) q op, s.madeOn p q op ≠ [] → q = p := by
    intro s q op hne
    unfold Server.madeOn at hne
    by_contra hq
    apply hne
    cases s.heap q with
    | none => rfl
    | some ev => exact if_neg hq
  unfold Loop.callsOn at h
  split at h
  · rename_i rev revs _
    obtain ⟨call, hcall, hfound⟩ := readCall_eq hst.srv rev
    simp only [Server.readOn, hcall] at h
    split at h
    · rename_i hok
      obtain ⟨hevents, -⟩ := hfound _ _ (Except.ok.inj hok)
      obtain rfl := hmade _ _ _ h
      exact ⟨_, hevents⟩
    · exact absurd rfl h
  · rename_i rev revs _
    obtain ⟨call, hcall, hfound⟩ := writeCall_eq hst.srv rev
    simp only [Server.writeOn, hcall] at h
    split at h
    · rename_i hok
      obtain ⟨hevents, -⟩ := hfound _ _ (Except.ok.inj hok)
      obtain rfl := hmade _ _ _ h
      exact ⟨_, hevents⟩
    · exact absurd rfl h
  · exact absurd rfl h

theorem next_finished_touched (s : Server) (p : EventPtr) (ev : Event) (errno : Errno)
    (acts : List Action) (fd : Int) (mod : Option Errno) (next : Next) :
    ((s.touched p ev errno acts).finished p fd mod next).next = s.next :=
  finished_next _ _ _ _ _

/-- Addresses are not used again. -/
theorem next_step (hst : st.Inv) {i : Input} (hstep : st.step i = .ok st') :
    st.srv.next ≤ st'.srv.next := by
  cases loop_moves hstep with
  | failed => exact le_rfl
  | reported => exact le_rfl
  | @read rev revs a t _ _ ht =>
    rcases readBlock_cases hst.srv rev a with hcase | ⟨p, ev, hr, -, hR, -, hcase⟩ |
      ⟨p, ev, hr, -, hR, hconn, hcase⟩
    · rw [hcase] at ht
      obtain rfl := Except.ok.inj ht
      exact le_rfl
    · rw [hcase] at ht
      refine ((accepter_safe (I := fun t => st.srv.next ≤ t.next) (fun _ _ _ hI => hI) ?_ hst.srv
        le_rfl hr.live hR a.accept).ok ht).2
      intro u fd add _ hI _ _
      rw [accepted_next]
      exact Nat.le_succ_of_le hI
    · rw [hcase] at ht
      obtain ⟨r, -, rfl⟩ := (server_recver_safe hst.srv hr hconn hR a).ok ht
      exact Nat.le_of_eq (next_finished_touched _ _ _ _ _ _ _ _).symm
  | @write rev revs a t _ _ ht =>
    rcases writeBlock_cases hst.srv rev a with hcase | ⟨p, ev, hr, -, hR, hconn, hcase⟩
    · rw [hcase] at ht
      obtain rfl := Except.ok.inj ht
      exact le_rfl
    · rw [hcase] at ht
      obtain ⟨r, -, rfl⟩ := (server_sender_safe hst.srv hr hconn hR a).ok ht
      exact Nat.le_of_eq (next_finished_touched _ _ _ _ _ _ _ _).symm

/-- An `Event` that is called has been allocated, and one that is lost is not called, neither before
    nor afterwards. -/
theorem lost_not_called {is : List Input} (h0 : Started st) (h : Run Loop.Steps st is st')
    (p : EventPtr) : (st.calls p is ≠ [] → p < st'.srv.next) ∧
      ∀ fd, (fd, p) ∈ st.lost is → st.calls p is = [] := by
  induction h with
  | nil => exact ⟨fun hne => absurd rfl hne, fun _ hmem => (List.not_mem_nil hmem).elim⟩
  | @snoc is t u i hrun hst ih =>
    have ht := loop_run h0 hrun
    obtain ⟨hbefore, hlost⟩ := ih
    have hcalls : st.calls p (is ++ [i]) = st.calls p is ++ t.callsOn p i :=
      emitted_snoc loop_next hrun hst
    have hloses : st.lost (is ++ [i]) = st.lost is ++ t.losesIn i :=
      emitted_snoc loop_next hrun hst
    have hallocated : t.callsOn p i ≠ [] → p < t.srv.next := by
      intro hne
      obtain ⟨fd, hfd⟩ := callsOn_registered ht hne
      obtain ⟨ev, hev, -⟩ := ht.srv.stored fd p hfd
      exact ht.srv.lt_next hev
    rw [hcalls, hloses]
    constructor
    · intro hne
      refine Nat.lt_of_lt_of_le ?_ (next_step ht hst)
      by_cases hold : st.calls p is = []
      · exact hallocated (by simpa [hold] using hne)
      · exact hbefore hold
    · intro fd hmem
      rw [List.append_eq_nil_iff]
      rcases List.mem_append.1 hmem with hold | hnow
      · refine ⟨hlost fd hold, ?_⟩
        by_contra hne
        obtain ⟨fd', hfd'⟩ := callsOn_registered ht hne
        exact ((balanced_run h0 hrun).apart fd p hold).2.2.2 fd' hfd'
      · have hge := losesIn_ge hnow
        constructor
        · by_contra hne
          exact absurd (hbefore hne) (Nat.not_lt.2 hge)
        · by_contra hne
          exact absurd (hallocated hne) (Nat.not_lt.2 hge)

/-- **The balance of the server.** After every run, with any clients and any answers of the kernel,
    a descriptor is open if and only if it was when the loop started, or it is registered, or its
    registration failed; an `Event` is on the heap if and only if it was then, or it is registered,
    or its registration failed. The connections whose registration failed are different ones, are
    never closed or freed, and no handler is ever called for them. So nothing leaks exactly in the
    runs in which no registration fails. -/
theorem server_balance (is : List Input) (h0 : Started st) (h : Run Loop.Steps st is st') :
    (∀ fd, st'.srv.opened fd = true ↔ st.srv.opened fd = true ∨
      (st'.srv.events fd).isSome = true ∨ ∃ p, (fd, p) ∈ st.lost is) ∧
    (∀ p, (st'.srv.heap p).isSome = true ↔ (st.srv.heap p).isSome = true ∨
      (∃ fd, st'.srv.events fd = some p) ∨ ∃ fd, (fd, p) ∈ st.lost is) ∧
    (∀ fd p, (fd, p) ∈ st.lost is → st.srv.opened fd = false ∧ st'.srv.events fd = none ∧
      st.srv.heap p = none ∧ (∀ fd', st'.srv.events fd' ≠ some p) ∧ st.calls p is = []) ∧
    ((st.lost is).map Prod.fst).Nodup ∧ ((st.lost is).map Prod.snd).Nodup := by
  have hbal := balanced_run h0 h
  refine ⟨hbal.opened, hbal.live, ?_, hbal.fds, hbal.ptrs⟩
  intro fd p hmem
  obtain ⟨hopen, hevents, hheap, hother⟩ := hbal.apart fd p hmem
  exact ⟨hopen, hevents, hheap, hother, (lost_not_called h0 h p).2 fd hmem⟩

/-- Of two connections one is not registered; the other one ends. -/
def lossInputs : List Input :=
  [.wait (.ok [(3, epollIn)]),
   .read { Answers.none with accept := [.ok 5 none, .ok 6 (some .enoent), .err .eagain] },
   .write Answers.none,
   .wait (.ok [(5, epollIn)]),
   .read { Answers.none with recv := [.ok []] },
   .write Answers.none]

/-- Descriptor 6 stays open with its `Event`, descriptor 5 is closed. -/
theorem server_balance_two : ∃ st st', Started st ∧ Run Loop.Steps st lossInputs st' ∧
    st.lost lossInputs = [(6, 2)] ∧
    (st'.srv.opened 5 = true ↔ st.srv.opened 5 = true ∨ (st'.srv.events 5).isSome = true) ∧
    st'.srv.opened 6 = true ∧ st'.srv.events 6 = none ∧ st.calls 2 lossInputs = [] := by
  obtain ⟨st, st', hmain, hrun, -⟩ := exists_run .good lossInputs
    (p := fun _ => true) (by decide +kernel)
  have h0 : Started st := ⟨_, _, _, _, _, _, hmain⟩
  have hall : ((Server.fresh.main 2 .good).toOption.all fun st =>
      decide (st.lost lossInputs = [(6, 2)])) = true := by
    decide +kernel
  simp only [hmain, Except.toOption, Option.all_some] at hall
  have hlost := of_decide_eq_true hall
  obtain ⟨hopened, -, hleft, -⟩ := server_balance lossInputs h0 hrun
  rw [hlost] at hopened hleft
  obtain ⟨-, hnone, -, -, hcalls⟩ := hleft 6 2 (by simp)
  refine ⟨st, st', h0, hrun, hlost, ?_, ?_, hnone, hcalls⟩
  · simpa using hopened 5
  · simpa using hopened 6

end Run

end SystemCallLearn.Reactor
