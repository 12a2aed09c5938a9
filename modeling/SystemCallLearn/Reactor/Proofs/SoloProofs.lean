import SystemCallLearn.Reactor.Proofs.AccepterProofs
import SystemCallLearn.Reactor.Proofs.RecverProofs

/-!
# A connection on its own

What is seen of a connection (`ConnView`), what a run of the server gives it (`Loop.trace`), and the
connection that gets the same with no other one around (`Solo`). `errno` is the only thing through
which the handlers of different connections meet, and `SenderCore` is the only place where one is
read that may be somebody else's: behind a `send` that returned 0 (`ReadsStale`).
-/

namespace SystemCallLearn.Reactor

open SystemCallLearn.Posix SystemCallLearn.Lib

/-! ## What the handlers take from the rest of the process -/

/-- The `errno` with which `RecverCore` finds the socket drained. -/
def drainErrno : List RecvResult → Errno
  | [] => .zero
  | .ok _ :: rest => drainErrno rest
  | .err e :: rest => if e = .eintr then drainErrno rest else e

/-- `SenderCore` comes to read an `errno` that none of its own calls has set. -/
def ReadsStale (outbuffer : Bytes) : List SendResult → Prop
  | [] => False
  | .err _ :: _ => False
  | .ok n :: rest => n = 0 ∨ toInt (0 + n) ≠ toInt outbuffer.length ∧ ReadsStale outbuffer rest

section Handlers

variable {errno errno' : Errno} {frame : Frame} {inbuffer outbuffer : Bytes}

theorem recverCore_errno {answers : List RecvResult} {r : RecverEnd}
    (h : recverCore errno frame inbuffer answers = some r) (hret : r.ret = 1) :
    r.errno = drainErrno answers := by
  induction answers generalizing errno frame inbuffer with
  | nil => cases h
  | cons a rest ih =>
    cases a with
    | ok bytes =>
      simp only [recverCore] at h
      split_ifs at h with hpos
      · exact ih h
      · obtain rfl := Option.some.inj h
        simp at hret
    | err e =>
      simp only [recverCore] at h
      unfold drainErrno
      split_ifs at h with hintr hblock
      · rw [if_pos hintr]
        exact ih h
      · rw [if_neg hintr]
        obtain rfl := Option.some.inj h
        rfl
      · obtain rfl := Option.some.inj h
        simp at hret

/-- What `Recver` does depends neither on `errno` nor on what its array holds. -/
theorem recver_isolated (errno' : Errno) (frame' : Frame) {answers : List RecvResult}
    {r : RecverRun} (h : recver errno frame inbuffer outbuffer answers = some r) :
    ∃ r', recver errno' frame' inbuffer outbuffer answers = some r' ∧ r'.inbuffer = r.inbuffer ∧
      r'.outbuffer = r.outbuffer ∧ r'.next = r.next ∧ (r.next ≠ .errer → r'.errno = r.errno) := by
  have hcore := recverCore_eq errno frame inbuffer answers
  rw [← recverCore_eq errno' frame' inbuffer answers] at hcore
  unfold recver at h ⊢
  cases hc : recverCore errno frame inbuffer answers with
  | none => simp [hc] at h
  | some c =>
    rw [hc, Option.map_some] at hcore
    obtain ⟨c', hc', hpair⟩ := Option.map_eq_some_iff.1 hcore.symm
    obtain ⟨hret, hin⟩ := Prod.mk.inj hpair
    rw [hc] at h
    rw [hc']
    simp only [hret, hin] at h ⊢
    by_cases hle : c.ret ≤ 0
    · rw [if_pos hle] at h ⊢
      obtain rfl := Option.some.inj h
      exact ⟨_, rfl, rfl, rfl, rfl, fun hne => absurd rfl hne⟩
    · rw [if_neg hle] at h ⊢
      have hone : c.ret = 1 := by
        have hv : (verdict answers).map (fun v => (v, inbuffer ++ piece answers)) =
            some (c.ret, c.inbuffer) := by rw [← recverCore_eq errno frame, hc, Option.map_some]
        obtain ⟨v, hv, hpair⟩ := Option.map_eq_some_iff.1 hv
        obtain ⟨rfl, -⟩ := Prod.mk.inj hpair
        rcases verdict_cases hv with h1 | h1 | h1 <;> omega
      have herr : c'.errno = c.errno := by
        rw [recverCore_errno hc' (hret.trans hone), recverCore_errno hc hone]
      cases hsplit : splitSegment c.inbuffer [] sep with
      | none => simp [hsplit] at h
      | some x =>
        simp only [hsplit, Option.some.injEq] at h ⊢
        subst h
        exact ⟨_, rfl, rfl, rfl, rfl, fun _ => herr⟩

/-- What the rest of the process sees of a call of `SenderCore`. -/
def SenderEnd.seen (r : SenderEnd) : Int × Bytes × List SendCall := (r.ret, r.outbuffer, r.calls)

/-- What `SenderCore` does depends on the `errno` it finds only if it comes to read it. -/
theorem senderCore_isolated {answers : List SendResult} (h : ¬ ReadsStale outbuffer answers) :
    (senderCore errno outbuffer answers).map SenderEnd.seen =
      (senderCore errno' outbuffer answers).map SenderEnd.seen := by
  induction answers with
  | nil => rfl
  | cons a rest ih =>
    cases a with
    | err e => rfl
    | ok n =>
      simp only [ReadsStale, not_or, not_and] at h
      obtain ⟨hn, hrest⟩ := h
      have hpos : 0 < n := Nat.pos_of_ne_zero hn
      simp only [senderCore, senderBody, if_pos hpos]
      by_cases hall : toInt (0 + n) = toInt outbuffer.length
      · simp only [if_pos hall, Option.map_some]
        rfl
      · simp only [if_neg hall, Option.map_map]
        have hcons : ∀ call e,
            (senderCore e outbuffer rest).map
                (SenderEnd.seen ∘ fun r => { r with calls := call :: r.calls }) =
              ((senderCore e outbuffer rest).map SenderEnd.seen).map
                fun x => (x.1, x.2.1, call :: x.2.2) := by
          intro call e
          rw [Option.map_map]
          rfl
        rw [hcons, hcons, ih (hrest hall)]

/-- What `SenderCore` does when it reads the `errno` it finds: the connection stays, or it is
    deleted. -/
theorem senderCore_stale {answers : List SendResult} (h : ReadsStale outbuffer answers)
    (hintr : errno ≠ .eintr) : ∃ r, senderCore errno outbuffer answers = some r ∧
      r.next = if errno = .eagain ∨ errno = .ewouldblock then .enableRW true true else .errer := by
  induction answers with
  | nil => cases h
  | cons a rest ih =>
    cases a with
    | err e => cases h
    | ok n =>
      by_cases hn : n = 0
      · subst hn
        simp only [senderCore, senderBody, Nat.lt_irrefl, if_false, senderElse, if_neg hintr]
        by_cases hagain : errno = .eagain ∨ errno = .ewouldblock
        · simp only [if_pos hagain]
          exact ⟨_, rfl, rfl⟩
        · simp only [if_neg hagain]
          exact ⟨_, rfl, rfl⟩
      · obtain ⟨hall, hrest⟩ := h.resolve_left hn
        obtain ⟨r, hr, hnext⟩ := ih hrest
        have hpos : 0 < n := Nat.pos_of_ne_zero hn
        simp only [senderCore, senderBody, if_pos hpos, if_neg hall, hr, Option.map_some]
        exact ⟨_, rfl, hnext⟩

end Handlers

/-! ## What is seen of a connection -/

/-- What a connection has offered to `send` in a call: the buffer, and the range of it. -/
structure Offer where
  outbuffer : Bytes
  total : Nat
  len : Nat
  deriving DecidableEq

/-- What the action offers to `send` on `fd`. -/
def Action.offer (fd : Int) : Action → List Offer
  | .send sock outbuffer call =>
    if sock = fd then [{ outbuffer := outbuffer, total := call.total, len := call.len }] else []
  | _ => []

/-- What has been offered to `send` on `fd` in the life of the `Event` at `evp`, in order. -/
def offers (fd : Int) (evp : EventPtr) : List Action → List Offer
  | [] => []
  | act :: log =>
    if evp ∈ deletions log then offers fd evp log else offers fd evp log ++ act.offer fd

theorem deletions_append (acts log : List Action) :
    deletions (acts ++ log) = deletions acts ++ deletions log :=
  List.filterMap_append

theorem offers_deleted {fd : Int} {evp : EventPtr} {log : List Action} (acts : List Action)
    (h : evp ∈ deletions log) : offers fd evp (acts ++ log) = offers fd evp log := by
  induction acts with
  | nil => rfl
  | cons act acts ih =>
    have hmem : evp ∈ deletions (acts ++ log) := by
      rw [deletions_append]
      exact List.mem_append_right _ h
    rw [List.cons_append, offers, if_pos hmem, ih]

theorem offers_append {fd : Int} {evp : EventPtr} {acts log : List Action}
    (hacts : evp ∉ deletions acts) (hlog : evp ∉ deletions log) :
    offers fd evp (acts ++ log) = offers fd evp log ++ acts.reverse.flatMap (Action.offer fd) := by
  induction acts with
  | nil => simp
  | cons act acts ih =>
    have hacts' : evp ∉ deletions acts := by
      intro hmem
      apply hacts
      rw [← List.singleton_append, deletions_append]
      exact List.mem_append_right _ hmem
    have hnot : evp ∉ deletions (acts ++ log) := by
      rw [deletions_append, List.mem_append, not_or]
      exact ⟨hacts', hlog⟩
    rw [List.cons_append, offers, if_neg hnot, ih hacts', List.reverse_cons, List.flatMap_append,
      List.flatMap_singleton, List.append_assoc]

/-- What is seen of the connection with the descriptor `fd` and the `Event` at `evp`. -/
structure ConnView where
  registered : Bool
  buffers : Option (Bytes × Bytes)
  mask : Option UInt32
  offered : List Offer
  deriving DecidableEq

def Server.view (s : Server) (fd : Int) (evp : EventPtr) : ConnView where
  registered := decide (s.events fd = some evp)
  buffers := (s.heap evp).map fun ev => (ev.inbuffer, ev.outbuffer)
  mask := if s.events fd = some evp then (s.interest fd).map EpollEvent.events else none
  offered := offers fd evp s.log

/-- What a step of the loop gives a connection: the events reported for its descriptor, and the
    answers of its own calls. -/
inductive ConnInput where
  | read (events : UInt32) (recv : List RecvResult) (mod : Option Errno)
  | write (events : UInt32) (send : List SendResult) (mod : Option Errno)
  deriving DecidableEq

/-- The events reported for the connection, if the next block is the one of `half` in its entry. -/
def Loop.reported (st : Loop) (half : Half) (fd : Int) (evp : EventPtr) : Option UInt32 :=
  match st.revs with
  | [] => none
  | rev :: _ =>
    if st.half = half ∧ rev.fd = fd ∧ st.srv.events fd = some evp then some rev.events else none

/-- What the step gives the connection, if it is a step for it. -/
def Loop.given (st : Loop) (fd : Int) (evp : EventPtr) : Input → List ConnInput
  | .wait _ => []
  | .read a => ((st.reported .read fd evp).map fun events => .read events a.recv a.mod).toList
  | .write a => ((st.reported .write fd evp).map fun events => .write events a.send a.mod).toList

/-- What a run gives the connection. -/
def Loop.trace (fd : Int) (evp : EventPtr) : Loop → List Input → List ConnInput
  | _, [] => []
  | st, i :: is =>
    st.given fd evp i ++ match st.step i with
      | .ok st' => st'.trace fd evp is
      | .error _ => []

/-- In a write block of the connection, `Recver` has run on it for the same entry, or `SenderCore`
    does not read an `errno` that it has not set. -/
def Isolated (fd : Int) (evp : EventPtr) (st : Loop) : Input → Prop
  | .write a => ∀ events ev, st.reported .write fd evp = some events → st.srv.heap evp = some ev →
      convert events &&& epollOut ≠ 0 → convert events &&& epollIn ≠ 0 ∨
        ¬ ReadsStale ev.outbuffer a.send
  | _ => True

theorem trace_append {fd : Int} {evp : EventPtr} {st st' : Loop} {is js : List Input}
    (h : Run Loop.Steps st is st') :
    st.trace fd evp (is ++ js) = st.trace fd evp is ++ st'.trace fd evp js := by
  induction h generalizing js with
  | nil => rfl
  | @snoc is t u i hrun hst ih =>
    have hstep : t.step i = .ok u := hst
    have hcons : ∀ js, t.trace fd evp (i :: js) = t.given fd evp i ++ u.trace fd evp js := by
      intro js
      simp only [Loop.trace, hstep]
    rw [List.append_assoc, ih, ih, List.singleton_append, hcons, hcons, List.append_assoc]
    simp [Loop.trace]

/-! ## A connection on its own -/

/-- The buffers of a connection and its mask. -/
structure Held where
  inbuffer : Bytes
  outbuffer : Bytes
  mask : UInt32

/-- A connection on its own: what it holds until it is deleted, what it has offered to `send`, and
    the `errno` that its last call has left. -/
structure Solo where
  held : Option Held
  offered : List Offer
  errno : Errno

/-- How a handler ends. -/
def Solo.finish (c : Solo) (mod : Option Errno) : Next → Solo
  | .nothing => c
  | .errer => { c with held := none }
  | .enableRW read write =>
    match mod with
    | none => { c with held := c.held.map fun b => { b with mask := enableMask read write } }
    | some e => { c with errno := e }

/-- `Recver` on its own, with an array that holds zeros. -/
def Solo.recver (c : Solo) (b : Held) (recv : List RecvResult) (mod : Option Errno) : Solo :=
  match Reactor.recver c.errno ⟨fun _ => 0, []⟩ b.inbuffer b.outbuffer recv with
  | none => c
  | some r =>
    Solo.finish { c with
      held := some { b with inbuffer := r.inbuffer, outbuffer := r.outbuffer }
      errno := r.errno } mod r.next

/-- `Sender` on its own. -/
def Solo.sender (c : Solo) (b : Held) (send : List SendResult) (mod : Option Errno) : Solo :=
  match senderCore c.errno b.outbuffer send with
  | none => c
  | some r =>
    Solo.finish { c with
      held := some { b with outbuffer := r.outbuffer }
      offered := c.offered ++ r.calls.map fun call =>
        { outbuffer := b.outbuffer, total := call.total, len := call.len }
      errno := r.errno } mod r.next

/-- A step of the connection on its own. -/
def Solo.step (c : Solo) (i : ConnInput) : Solo :=
  match c.held with
  | none => c
  | some b =>
    match i with
    | .read events recv mod => if convert events &&& epollIn ≠ 0 then c.recver b recv mod else c
    | .write events send mod => if convert events &&& epollOut ≠ 0 then c.sender b send mod else c

/-- What is seen of it. -/
def Solo.view (c : Solo) : ConnView where
  registered := c.held.isSome
  buffers := c.held.map fun b => (b.inbuffer, b.outbuffer)
  mask := c.held.map Held.mask
  offered := c.offered

/-- The connection of the server is as `c`: registered with what `c` holds, or deleted. -/
structure Mirrors (fd : Int) (evp : EventPtr) (s : Server) (c : Solo) : Prop where
  held : ∀ b, c.held = some b → evp ∉ deletions s.log ∧ s.events fd = some evp ∧
    (∃ ev, s.heap evp = some ev ∧ ev.IsConn ∧ ev.sock = fd ∧ ev.inbuffer = b.inbuffer ∧
      ev.outbuffer = b.outbuffer) ∧
    ∃ e, s.interest fd = some e ∧ e.events = b.mask
  gone : c.held = none → s.events fd ≠ some evp ∧ evp ∈ deletions s.log
  offered : offers fd evp s.log = c.offered

section Mirrors

variable {s t : Server} {fd : Int} {evp p : EventPtr} {ev : Event} {c : Solo}

theorem Mirrors.view (hs : s.Inv) (h : Mirrors fd evp s c) : s.view fd evp = c.view := by
  unfold Server.view Solo.view
  cases hc : c.held with
  | none =>
    obtain ⟨hnot, hgone⟩ := h.gone hc
    simp [hnot, (hs.gone evp hgone).1, h.offered]
  | some b =>
    obtain ⟨-, hstored, ⟨ev, hev, -, -, hin, hout⟩, e, he, hmask⟩ := h.held b hc
    simp [hstored, hev, hin, hout, he, hmask, h.offered]

/-- Until it is deleted its `Event` is registered, with the buffers that `c` holds. -/
theorem Mirrors.registered (hs : s.Inv) (h : Mirrors fd evp s c) {b : Held} (hb : c.held = some b) :
    ∃ ev, s.Registered evp ev ∧ ev.IsConn ∧ ev.sock = fd ∧ ev.R = some s.this ∧
      ev.inbuffer = b.inbuffer ∧ ev.outbuffer = b.outbuffer := by
  obtain ⟨-, hstored, ⟨ev, hev, hconn, hsock, hin, hout⟩, -⟩ := h.held b hb
  obtain ⟨ev', hr, -, hR⟩ := hs.registered hstored
  obtain rfl : ev' = ev := Option.some.inj (hr.live.symm.trans hev)
  exact ⟨ev', hr, hconn, hsock, hR, hin, hout⟩

/-- Nothing happens to the connection: `acts` offer nothing on its descriptor, unless it has been
    deleted. -/
theorem Mirrors.frame (h : Mirrors fd evp s c) (acts : List Action) (hlog : t.log = acts ++ s.log)
    (hlive : ∀ b, c.held = some b → evp ∉ deletions acts ∧ t.events fd = some evp ∧
      t.heap evp = s.heap evp ∧ t.interest fd = s.interest fd ∧ ∀ act ∈ acts, act.offer fd = [])
    (hgone : s.events fd ≠ some evp → evp ∈ deletions s.log → t.events fd ≠ some evp) :
    Mirrors fd evp t c := by
  refine ⟨?_, ?_, ?_⟩
  · intro b hb
    obtain ⟨hacts, hevents, hheap, hint, -⟩ := hlive b hb
    obtain ⟨hdel, -, hev, he⟩ := h.held b hb
    refine ⟨?_, hevents, hheap ▸ hev, hint ▸ he⟩
    rw [hlog, deletions_append, List.mem_append, not_or]
    exact ⟨hacts, hdel⟩
  · intro hnone
    obtain ⟨hnot, hdel⟩ := h.gone hnone
    refine ⟨hgone hnot hdel, ?_⟩
    rw [hlog, deletions_append]
    exact List.mem_append_right _ hdel
  · rw [hlog]
    cases hc : c.held with
    | none => rw [offers_deleted acts (h.gone hc).2, h.offered]
    | some b =>
      obtain ⟨hacts, -, -, -, hoffer⟩ := hlive b hc
      have hnil : acts.reverse.flatMap (Action.offer fd) = [] :=
        List.flatMap_eq_nil_iff.2 fun act hact => hoffer act (List.mem_reverse.1 hact)
      rw [offers_append hacts (h.held b hc).1, hnil, List.append_nil, h.offered]

/-- Another `Event` is not stored under the descriptor of the connection while it lives. -/
theorem Mirrors.sock_ne (h : Mirrors fd evp s c) (hr : s.Registered p ev)
    (hne : p ≠ evp) {b : Held} (hb : c.held = some b) : ev.sock ≠ fd := by
  intro hsock
  obtain ⟨-, hstored, -⟩ := h.held b hb
  have hp := hr.stored
  rw [hsock, hstored] at hp
  exact hne (Option.some.inj hp).symm

/-- Another `Event` is touched. -/
theorem Mirrors.other_touched (h : Mirrors fd evp s c) (hne : p ≠ evp) (ev' : Event) (errno : Errno)
    {acts : List Action} (hdel : deletions acts = [])
    (hoffer : ∀ b, c.held = some b → ∀ act ∈ acts, act.offer fd = []) :
    Mirrors fd evp (s.touched p ev' errno acts) c := by
  refine h.frame acts rfl ?_ fun hnot _ => hnot
  intro b hb
  exact ⟨by simp [hdel], (h.held b hb).2.1, Function.update_of_ne hne.symm _ _, rfl, hoffer b hb⟩

/-- The callback of another `Event`, on another descriptor, ends. -/
theorem Mirrors.other_finished (h : Mirrors fd evp s c) (hne : p ≠ evp) {sock : Int}
    (hsock : ∀ b, c.held = some b → fd ≠ sock) (mod : Option Errno) (next : Next) :
    Mirrors fd evp (s.finished p sock mod next) c := by
  have hmod : ∀ mask done, ∀ act ∈ [Action.mod sock mask done], act.offer fd = [] := by
    intro mask done act hact
    obtain rfl := List.mem_singleton.1 hact
    rfl
  cases next with
  | nothing => exact h
  | errer =>
    refine h.frame [.delete p] rfl ?_ ?_
    · intro b hb
      have hfd := hsock b hb
      refine ⟨?_, ?_, Function.update_of_ne hne.symm _ _, Function.update_of_ne hfd _ _, ?_⟩
      · show evp ∉ [p]
        rw [List.mem_singleton]
        exact hne.symm
      · exact (Function.update_of_ne hfd _ _).trans (h.held b hb).2.1
      · intro act hact
        obtain rfl := List.mem_singleton.1 hact
        rfl
    · intro hnot _
      show Function.update s.events sock none fd ≠ some evp
      rw [Function.update_apply]
      split_ifs
      · exact (Option.some_ne_none evp).symm
      · exact hnot
  | enableRW read write =>
    cases mod with
    | none =>
      refine h.frame [.mod sock (enableMask read write) true] rfl ?_ fun hnot _ => hnot
      intro b hb
      exact ⟨List.not_mem_nil, (h.held b hb).2.1, rfl, Function.update_of_ne (hsock b hb) _ _,
        hmod _ true⟩
    | some e =>
      refine h.frame [.mod sock (enableMask read write) false] rfl ?_ fun hnot _ => hnot
      intro b hb
      exact ⟨List.not_mem_nil, (h.held b hb).2.1, rfl, rfl, hmod _ false⟩

/-- A callback of another `Event`, with `acts` that offer nothing on another descriptor. -/
theorem Mirrors.other (h : Mirrors fd evp s c) (hr : s.Registered p ev) (hne : p ≠ evp)
    (ev' : Event) (errno : Errno) {acts : List Action} (hdel : deletions acts = [])
    (hoffer : ev.sock ≠ fd → ∀ act ∈ acts, act.offer fd = []) (mod : Option Errno) (next : Next) :
    Mirrors fd evp ((s.touched p ev' errno acts).finished p ev.sock mod next) c := by
  have hsock := fun b hb => h.sock_ne hr hne (b := b) hb
  have htouched := h.other_touched hne ev' errno hdel fun b hb => hoffer (hsock b hb)
  exact htouched.other_finished hne (fun b hb => (hsock b hb).symm) mod next

/-- A connection is accepted: its descriptor was not open and its `Event` is new. -/
theorem Mirrors.accepted (hs : s.Inv) (h : Mirrors fd evp s c) {fd' : Int}
    (hnew : s.opened fd' = false) (add : Option Errno) :
    Mirrors fd evp (s.accepted fd' add) c := by
  refine h.frame [] (accepted_log s fd' add) ?_ ?_
  · intro b hb
    obtain ⟨-, hstored, ⟨ev, hev, -⟩, -⟩ := h.held b hb
    have hne : fd ≠ fd' := by
      rintro rfl
      rw [(hs.unregistered hnew).1] at hstored
      cases hstored
    refine ⟨List.not_mem_nil, accepted_events hs hstored hnew add, ?_, ?_, by simp⟩
    · rw [hev, accepted_heap hs hev]
    · cases add with
      | none => exact Function.update_of_ne hne _ _
      | some e => rfl
  · intro hnot hdel
    cases add with
    | none =>
      show Function.update s.events fd' (some s.next) fd ≠ some evp
      rw [Function.update_apply]
      split_ifs
      · intro heq
        exact Nat.ne_of_lt (hs.gone evp hdel).2 (Option.some.inj heq).symm
      · exact hnot
    | some e => exact hnot

/-- The end of a handler of the connection itself. -/
theorem Mirrors.finished (h : Mirrors fd evp s c) {b : Held} (hb : c.held = some b)
    (mod : Option Errno) (next : Next) :
    Mirrors fd evp (s.finished evp fd mod next) (c.finish mod next) := by
  obtain ⟨hdel, hstored, hev, e, he, hmask⟩ := h.held b hb
  cases next with
  | nothing => exact h
  | errer =>
    refine ⟨?_, ?_, ?_⟩
    · intro b hb'
      cases hb'
    · intro _
      refine ⟨?_, List.mem_cons_self⟩
      show Function.update s.events fd none fd ≠ some evp
      rw [Function.update_self]
      exact (Option.some_ne_none evp).symm
    · show offers fd evp (.delete evp :: s.log) = c.offered
      rw [offers, if_neg hdel, h.offered]
      exact List.append_nil _
  | enableRW read write =>
    have hoffered : ∀ done, offers fd evp (.mod fd (enableMask read write) done :: s.log) =
        c.offered := by
      intro done
      rw [offers, if_neg hdel, h.offered]
      exact List.append_nil _
    cases mod with
    | none =>
      refine ⟨?_, ?_, hoffered true⟩
      · intro b' hb'
        obtain ⟨b₀, hb₀, rfl⟩ := Option.map_eq_some_iff.1 hb'
        obtain rfl : b = b₀ := Option.some.inj (hb.symm.trans hb₀)
        exact ⟨hdel, hstored, hev, _, Function.update_self _ _ _, rfl⟩
      · intro hnone
        rw [Solo.finish, hb] at hnone
        cases hnone
    | some err =>
      refine ⟨fun b' hb' => h.held b' hb', fun hnone => ?_, hoffered false⟩
      have hnone' : c.held = none := hnone
      rw [hb] at hnone'
      cases hnone'

/-- The buffers of the connection itself are changed, with the actions `acts`. -/
theorem Mirrors.touched (h : Mirrors fd evp s c) {b : Held} (hb : c.held = some b) {ev' : Event}
    (hconn : ev'.IsConn) (hsock : ev'.sock = fd) (errno errno' : Errno) {acts : List Action}
    (hdel : deletions acts = []) :
    Mirrors fd evp (s.touched evp ev' errno acts)
      { held := some { b with inbuffer := ev'.inbuffer, outbuffer := ev'.outbuffer }
        offered := c.offered ++ acts.reverse.flatMap (Action.offer fd)
        errno := errno' } := by
  obtain ⟨hnot, hstored, -, e, he, hmask⟩ := h.held b hb
  refine ⟨?_, ?_, ?_⟩
  · intro b' hb'
    obtain rfl := Option.some.inj hb'
    refine ⟨?_, hstored, ⟨ev', Function.update_self _ _ _, hconn, hsock, rfl, rfl⟩, e, he, hmask⟩
    show evp ∉ deletions (acts ++ s.log)
    rw [deletions_append, hdel]
    exact hnot
  · intro hnone
    cases hnone
  · show offers fd evp (acts ++ s.log) = _
    rw [offers_append (by simp [hdel]) hnot, h.offered]

theorem finished_errno {mod : Option Errno} (next : Next) (h : s.errno = c.errno) :
    (s.finished evp fd mod next).errno = (c.finish mod next).errno := by
  cases next with
  | nothing | errer => exact h
  | enableRW read write =>
    cases mod with
    | none => exact h
    | some e => rfl

/-- `Recver` on the connection itself. -/
theorem Mirrors.recver (hs : s.Inv) (h : Mirrors fd evp s c) {b : Held} (hb : c.held = some b)
    {a : Answers} (ht : s.recver evp a = .ok t) :
    Mirrors fd evp t (c.recver b a.recv a.mod) ∧
      ((c.recver b a.recv a.mod).held ≠ none → t.errno = (c.recver b a.recv a.mod).errno) := by
  obtain ⟨ev, hr, hconn, hsock, hR, hin, hout⟩ := h.registered hs hb
  obtain ⟨r, hcore, rfl⟩ := (server_recver_safe hs hr hconn hR a).ok ht
  rw [hin, hout] at hcore
  obtain ⟨r', hcore', hin', hout', hnext, herr⟩ :=
    recver_isolated c.errno ⟨fun _ => 0, []⟩ hcore
  have hdel : deletions (if r.outbuffer = ev.outbuffer then [] else [Action.append evp]) = [] := by
    split_ifs <;> rfl
  have hoffer : (if r.outbuffer = ev.outbuffer then [] else [Action.append evp]).reverse.flatMap
      (Action.offer fd) = [] := by
    split_ifs <;> rfl
  have hkept := h.touched hb (same_buffers hconn r.inbuffer r.outbuffer |>.kind.1 hconn) hsock
    r.errno r'.errno hdel
  rw [hoffer, List.append_nil] at hkept
  have hsolo : c.recver b a.recv a.mod = Solo.finish
      { held := some { b with inbuffer := r.inbuffer, outbuffer := r.outbuffer }
        offered := c.offered
        errno := r'.errno } a.mod r.next := by
    unfold Solo.recver
    rw [hcore']
    simp only [hin', hout', hnext]
  rw [hsolo]
  constructor
  · rw [hsock]
    exact hkept.finished rfl a.mod r.next
  · intro hlive
    apply finished_errno r.next
    refine (herr ?_).symm
    intro hnext'
    rw [hnext'] at hlive
    exact hlive rfl

/-- `Sender` on the connection itself. -/
theorem Mirrors.sender (hs : s.Inv) (h : Mirrors fd evp s c) {b : Held} (hb : c.held = some b)
    {a : Answers}
    (hsame : (senderCore s.errno b.outbuffer a.send).map SenderEnd.seen =
      (senderCore c.errno b.outbuffer a.send).map SenderEnd.seen)
    (ht : s.sender evp a = .ok t) : Mirrors fd evp t (c.sender b a.send a.mod) := by
  obtain ⟨ev, hr, hconn, hsock, hR, hin, hout⟩ := h.registered hs hb
  obtain ⟨r, hcore, rfl⟩ := (server_sender_safe hs hr hconn hR a).ok ht
  rw [hout] at hcore
  rw [hcore, Option.map_some] at hsame
  obtain ⟨r', hcore', hseen⟩ := Option.map_eq_some_iff.1 hsame.symm
  obtain ⟨hret, hseen⟩ := Prod.mk.inj hseen
  obtain ⟨hout', hcalls⟩ := Prod.mk.inj hseen
  have hnext : r'.next = r.next := by rw [SenderEnd.next, SenderEnd.next, hret]
  have hkept := h.touched hb (same_buffers hconn ev.inbuffer r.outbuffer |>.kind.1 hconn) hsock
    r.errno r'.errno (deletions_sends ev.sock ev.outbuffer r.calls)
  have hoffer : (r.calls.map (Action.send ev.sock ev.outbuffer)).reverse.reverse.flatMap
      (Action.offer fd) = r.calls.map fun call =>
        { outbuffer := b.outbuffer, total := call.total, len := call.len } := by
    rw [List.reverse_reverse, List.flatMap_map, List.map_eq_flatMap]
    simp [Action.offer, hsock, hout]
  have hsolo : c.sender b a.send a.mod = Solo.finish
      { held := some { b with inbuffer := ev.inbuffer, outbuffer := r.outbuffer }
        offered := c.offered ++ r.calls.map fun call =>
          { outbuffer := b.outbuffer, total := call.total, len := call.len }
        errno := r'.errno } a.mod r.next := by
    unfold Solo.sender
    rw [hcore']
    simp only [hout', hcalls, hnext, hin]
  rw [hoffer] at hkept
  rw [hsolo, hsock]
  exact hkept.finished rfl a.mod r.next

theorem Mirrors.held_of_stored (h : Mirrors fd evp s c) (hstored : s.events fd = some evp) :
    ∃ b, c.held = some b := by
  cases hb : c.held with
  | none => exact absurd hstored (h.gone hb).1
  | some b => exact ⟨b, rfl⟩

/-- In an entry that is not one of the connection, no callback of the connection is called. -/
theorem Mirrors.ne_of_entry (hs : s.Inv) (h : Mirrors fd evp s c) (hr : s.Registered p ev)
    {rev : EpollEvent} (hsock : ev.sock = rev.fd)
    (hother : ¬ (rev.fd = fd ∧ s.events fd = some evp)) : p ≠ evp := by
  rintro rfl
  cases hb : c.held with
  | none =>
    have hnone := (hs.gone p (h.gone hb).2).1
    rw [hr.live] at hnone
    cases hnone
  | some b =>
    obtain ⟨ev', hr', -, hsock', -⟩ := h.registered hs hb
    obtain rfl : ev = ev' := Option.some.inj (hr.live.symm.trans hr'.live)
    exact hother ⟨hsock.symm.trans hsock', hsock' ▸ hr'.stored⟩

/-- The read block of an entry of the connection. -/
theorem Mirrors.readBlock (h : Mirrors fd evp s c) {b : Held} (hb : c.held = some b)
    {rev : EpollEvent} (hrev : rev.fd = fd) (a : Answers) :
    s.readBlock rev a = if convert rev.events &&& epollIn ≠ 0 then s.recver evp a else .ok s := by
  obtain ⟨-, hstored, ⟨ev, hev, hconn, -⟩, -⟩ := h.held b hb
  unfold Server.readBlock Server.readCall
  rw [hrev, hstored]
  by_cases hin : convert rev.events &&& epollIn ≠ 0
  · rw [if_pos hin, if_pos hin]
    simp [deref_eq hev, hconn.1]
  · rw [if_neg hin, if_neg hin]
    rfl

/-- The write block of an entry of the connection. -/
theorem Mirrors.writeBlock (h : Mirrors fd evp s c) {b : Held} (hb : c.held = some b)
    {rev : EpollEvent} (hrev : rev.fd = fd) (a : Answers) :
    s.writeBlock rev a = if convert rev.events &&& epollOut ≠ 0 then s.sender evp a else .ok s := by
  obtain ⟨-, hstored, ⟨ev, hev, hconn, -⟩, -⟩ := h.held b hb
  unfold Server.writeBlock Server.writeCall
  rw [hrev, hstored]
  by_cases hout : convert rev.events &&& epollOut ≠ 0
  · rw [if_pos hout, if_pos hout]
    simp [deref_eq hev, hconn.2.1]
  · rw [if_neg hout, if_neg hout]
    rfl

/-- The read block of another entry. -/
theorem Mirrors.readBlock_other (hs : s.Inv) (h : Mirrors fd evp s c) {rev : EpollEvent}
    (hother : ¬ (rev.fd = fd ∧ s.events fd = some evp)) {a : Answers}
    (ht : s.readBlock rev a = .ok t) : Mirrors fd evp t c := by
  rcases readBlock_cases hs rev a with hnone | ⟨p, ev, hr, -, hR, -, hacc⟩ |
    ⟨p, ev, hr, hsock, hR, hconn, hrec⟩
  · obtain rfl := Except.ok.inj (hnone.symm.trans ht)
    exact h
  · exact ((accepter_safe (I := fun t => Mirrors fd evp t c)
      (fun u e _ hI => ⟨hI.held, hI.gone, hI.offered⟩)
      (fun u fd' add hu hI _ hnew => hI.accepted hu hnew add) hs h hr.live hR a.accept).ok
        (hacc.symm.trans ht)).2
  · obtain ⟨r, -, rfl⟩ := (server_recver_safe hs hr hconn hR a).ok (hrec.symm.trans ht)
    refine h.other hr (h.ne_of_entry hs hr hsock hother) _ _ ?_ ?_ _ _
    · split_ifs <;> rfl
    · intro _ act hact
      split_ifs at hact
      · cases hact
      · obtain rfl := List.mem_singleton.1 hact
        rfl

/-- The write block of another entry. -/
theorem Mirrors.writeBlock_other (hs : s.Inv) (h : Mirrors fd evp s c) {rev : EpollEvent}
    (hother : ¬ (rev.fd = fd ∧ s.events fd = some evp)) {a : Answers}
    (ht : s.writeBlock rev a = .ok t) : Mirrors fd evp t c := by
  rcases writeBlock_cases hs rev a with hnone | ⟨p, ev, hr, hsock, hR, hconn, hsnd⟩
  · obtain rfl := Except.ok.inj (hnone.symm.trans ht)
    exact h
  · obtain ⟨r, -, rfl⟩ := (server_sender_safe hs hr hconn hR a).ok (hsnd.symm.trans ht)
    refine h.other hr (h.ne_of_entry hs hr hsock hother) _ _ (deletions_sends _ _ _) ?_ _ _
    intro hne act hact
    obtain ⟨call, -, rfl⟩ := List.mem_map.1 (List.mem_reverse.1 hact)
    exact if_neg hne

end Mirrors

end SystemCallLearn.Reactor
