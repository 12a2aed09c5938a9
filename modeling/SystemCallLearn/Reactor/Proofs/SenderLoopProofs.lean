import SystemCallLearn.Reactor.Proofs.DispatchProofs
import SystemCallLearn.Reactor.Proofs.SenderProofs
import SystemCallLearn.Reactor.Proofs.SoloProofs

/-!
# `SenderCore`: when it returns, and whose `errno` it reads

Here `send` answers for ever: `send k` is what it answers when it is called the `k`-th time. The
loop has returned once it returns for some number of these answers.

As `total` starts at 0 in every iteration, the loop is left through a success only where one single
`send` takes the whole buffer. And as the `else` branch is also that of a `send` that returned 0, it
may read an `errno` that was there before the call.
-/

namespace SystemCallLearn.Reactor

open SystemCallLearn.Posix SystemCallLearn.Lib

/-- What `send` answers in its first `n` calls. -/
def firstAnswers (send : Nat → SendResult) (n : Nat) : List SendResult := (List.range n).map send

section Loop

variable {errno : Errno} {outbuffer : Bytes} {send : Nat → SendResult} {a : SendResult} {k n : Nat}
  {r : SenderEnd}

theorem firstAnswers_succ (send : Nat → SendResult) (n : Nat) :
    firstAnswers send (n + 1) = firstAnswers send n ++ [send n] := by
  simp [firstAnswers, List.range_succ]

theorem mem_firstAnswers : a ∈ firstAnswers send n ↔ ∃ k < n, send k = a := by
  simp [firstAnswers]

theorem forall_firstAnswers {P : SendResult → Prop} (h : ∀ k, P (send k)) (n : Nat) :
    ∀ a ∈ firstAnswers send n, P a := by
  intro a ha
  obtain ⟨k, -, rfl⟩ := mem_firstAnswers.1 ha
  exact h k

/-- A first part of the first answers is the first answers again. -/
theorem firstAnswers_of_append {l rest : List SendResult}
    (h : firstAnswers send n = l ++ a :: rest) : ∃ k, l = firstAnswers send k ∧ a = send k := by
  have hlen := congrArg List.length h
  simp only [firstAnswers, List.length_map, List.length_range, List.length_append,
    List.length_cons] at hlen
  have hprefix : firstAnswers send (l.length + 1) = l ++ [a] := by
    have htake := congrArg (List.take (l.length + 1)) h
    rw [firstAnswers, ← List.map_take, List.take_range, Nat.min_eq_left (by omega)] at htake
    rw [firstAnswers, htake, List.take_append]
    simp
  rw [firstAnswers_succ] at hprefix
  obtain ⟨hl, ha⟩ := List.append_inj' hprefix rfl
  exact ⟨l.length, hl.symm, (List.cons.inj ha).1.symm⟩

/-! ## Whether it returns -/

/-- The numbers of bytes accepted by the calls that `SenderCore` made. -/
def SenderEnd.successes (r : SenderEnd) : List Nat := accepts (r.calls.map SendCall.answer)

theorem answers_wholeCalls (size : Nat) (l : List SendResult) :
    (l.map (wholeCall size)).map SendCall.answer = l := by
  have hid : SendCall.answer ∘ wholeCall size = id := rfl
  rw [List.map_map, hid, List.map_id]

/-- `SenderCore` that has returned has asked for the answers up to the first one that ends its
    loop. -/
theorem senderCore_asks (hne : outbuffer ≠ []) (hv : ∀ k, SendAnswer outbuffer.length (send k))
    (h : senderCore errno outbuffer (firstAnswers send n) = some r) :
    ∃ k, goesOn outbuffer.length (send k) = false ∧
      r.calls.map SendCall.answer = firstAnswers send (k + 1) := by
  obtain ⟨answer, rest, hdrop, hcalls, -⟩ := senderCore_calls (forall_firstAnswers hv n) hne h
  have hsplit := (List.takeWhile_append_dropWhile (p := goesOn outbuffer.length)
    (l := firstAnswers send n)).symm
  rw [hdrop] at hsplit
  obtain ⟨k, hbefore, rfl⟩ := firstAnswers_of_append hsplit
  refine ⟨k, ?_, ?_⟩
  · have hhead := List.head?_dropWhile_not (goesOn outbuffer.length) (firstAnswers send n)
    simpa [hdrop] using hhead
  · rw [hcalls, answers_wholeCalls, firstAnswers_succ, hbefore]

/-- An answer that ends the loop ends it, if no earlier one has. -/
theorem senderCore_returns (hne : outbuffer ≠ []) (hv : ∀ k, SendAnswer outbuffer.length (send k))
    (hk : goesOn outbuffer.length (send k) = false) (errno : Errno) :
    ∃ r, senderCore errno outbuffer (firstAnswers send (k + 1)) = some r ∧
      r.calls.map SendCall.answer <+: firstAnswers send (k + 1) := by
  cases hr : senderCore errno outbuffer (firstAnswers send (k + 1)) with
  | none =>
    have hnil := senderCore_none (forall_firstAnswers hv (k + 1)) hne hr
    have hgoes := List.dropWhile_eq_nil_iff.1 hnil (send k)
      (mem_firstAnswers.2 ⟨k, Nat.lt_succ_self k, rfl⟩)
    rw [hk] at hgoes
    cases hgoes
  | some r =>
    obtain ⟨answer, rest, hdrop, hcalls, -⟩ :=
      senderCore_calls (forall_firstAnswers hv (k + 1)) hne hr
    refine ⟨r, rfl, rest, ?_⟩
    rw [hcalls, answers_wholeCalls, List.append_assoc, List.singleton_append, ← hdrop]
    exact List.takeWhile_append_dropWhile

/-- **`SenderCore` returns only through one `send` that takes everything, or fails.** For every
    non-empty buffer and all that `send` may answer, the call returns after at most as many
    successful calls of `send` as the buffer has bytes if and only if, with no more successes than
    that, one answer is the size of the whole buffer or an error other than an interrupt. -/
theorem senderCore_terminates_iff (errno : Errno) (outbuffer : Bytes) (send : Nat → SendResult)
    (hne : outbuffer ≠ []) (hv : ∀ k, SendAnswer outbuffer.length (send k)) :
    (∃ n r, senderCore errno outbuffer (firstAnswers send n) = some r ∧
        r.successes.length ≤ outbuffer.length) ↔
      ∃ k, goesOn outbuffer.length (send k) = false ∧
        (accepts (firstAnswers send (k + 1))).length ≤ outbuffer.length := by
  constructor
  · rintro ⟨n, r, hr, hle⟩
    obtain ⟨k, hk, hasked⟩ := senderCore_asks hne hv hr
    rw [SenderEnd.successes, hasked] at hle
    exact ⟨k, hk, hle⟩
  · rintro ⟨k, hk, hle⟩
    obtain ⟨r, hr, hasked⟩ := senderCore_returns hne hv hk errno
    have hfew : r.successes.length ≤ (accepts (firstAnswers send (k + 1))).length :=
      (hasked.filterMap _).length_le
    exact ⟨k + 1, r, hr, hfew.trans hle⟩

/-- Two interrupts, and then everything is taken. -/
theorem senderCore_terminates_iff_interrupted :
    ∃ n r, senderCore .zero [65, 66] (firstAnswers (fun k => if k < 2 then .err .eintr else .ok 2)
      n) = some r ∧ r.successes.length ≤ 2 := by
  have hoffered : offered 2 = 2 := offered_of_le (by decide)
  refine (senderCore_terminates_iff .zero [65, 66] _ (by simp) ?_).2 ⟨2, by decide, by decide⟩
  intro k
  by_cases hk : k < 2
  · simp [hk, SendAnswer]
  · simp [hk, SendAnswer, hoffered]

/-- A kernel that takes one byte in each call. -/
def oneByOne (_ : Nat) : SendResult := .ok 1

/-- **It does not return.** Two bytes are given, and the kernel takes one in each call. -/
theorem senderCore_spins :
    (∀ k, SendAnswer 2 (oneByOne k) ∧ oneByOne k ≠ .err .eintr) ∧
    ∀ n, senderCore .zero [65, 66] (firstAnswers oneByOne n) = none := by
  have hoffered : offered 2 = 2 := offered_of_le (by decide)
  have hv : ∀ k, SendAnswer ([65, 66] : Bytes).length (oneByOne k) := by
    intro k
    simp [SendAnswer, oneByOne, hoffered]
  refine ⟨fun k => ⟨hv k, by simp [oneByOne]⟩, ?_⟩
  intro n
  cases hr : senderCore .zero [65, 66] (firstAnswers oneByOne n) with
  | none => rfl
  | some r =>
    obtain ⟨k, hk, -⟩ := senderCore_asks (by simp) hv hr
    have hends : toInt 1 = toInt 2 := by simpa [goesOn, oneByOne] using hk
    exact absurd hends (by decide)

/-! ## Whose `errno` it reads -/

/-- Two values of `errno` on which `SenderCore` ends differently when it reads the one it finds. -/
theorem not_stale_of_same {answers : List SendResult}
    (h : ∀ e₁ e₂, (senderCore e₁ outbuffer answers).map SenderEnd.seen =
      (senderCore e₂ outbuffer answers).map SenderEnd.seen) : ¬ ReadsStale outbuffer answers := by
  intro hstale
  obtain ⟨r, hr, hnext⟩ := senderCore_stale hstale (show Errno.eagain ≠ .eintr by decide)
  obtain ⟨r', hr', hnext'⟩ := senderCore_stale hstale (show Errno.zero ≠ .eintr by decide)
  have hsame := h .eagain .zero
  rw [hr, hr', Option.map_some, Option.map_some, Option.some.injEq] at hsame
  have hret : r.ret = r'.ret := congrArg Prod.fst hsame
  rw [SenderEnd.next, hret, ← SenderEnd.next, hnext'] at hnext
  cases hnext

/-- An answer that ends the loop on an empty buffer: `send` fails, and not by an interrupt. -/
def Fails (a : SendResult) : Prop := ∃ e, a = .err e ∧ e ≠ .eintr

theorem senderBody_fails (errno : Errno) (outbuffer : Bytes) (h : Fails a) :
    ∃ r, senderBody errno outbuffer a = .inl r := by
  obtain ⟨e, rfl, hne⟩ := h
  unfold senderBody senderElse
  by_cases hb : e = .eagain ∨ e = .ewouldblock
  · simp [hne, hb]
  · simp [hne, hb]

/-- A failure ends the loop, if nothing has ended it before. -/
theorem senderCore_fails (errno : Errno) (outbuffer : Bytes) {answers : List SendResult}
    (hmem : a ∈ answers) (h : Fails a) : (senderCore errno outbuffer answers).isSome = true := by
  induction answers generalizing errno with
  | nil => cases hmem
  | cons b rest ih =>
    cases hbody : senderBody errno outbuffer b with
    | inl r => simp [senderCore, hbody]
    | inr x =>
      obtain ⟨call, e⟩ := x
      simp only [senderCore, hbody, Option.isSome_map]
      rcases List.mem_cons.1 hmem with rfl | hmem
      · obtain ⟨r, hr⟩ := senderBody_fails errno outbuffer h
        rw [hr] at hbody
        cases hbody
      · exact ih e hmem

/-- On an empty buffer, with `EINTR` left in `errno`, the loop goes on for as long as `send` does
    not fail. -/
theorem senderCore_empty_none {answers : List SendResult}
    (hv : ∀ a ∈ answers, ∀ n, a = .ok n → n ≤ offered 0)
    (hnone : ∀ a ∈ answers, ¬ Fails a) : senderCore .eintr [] answers = none := by
  induction answers with
  | nil => rfl
  | cons a rest ih =>
    have hrest := ih (fun b hb => hv b (List.mem_cons_of_mem a hb))
      fun b hb => hnone b (List.mem_cons_of_mem a hb)
    cases a with
    | ok n =>
      have hn : n ≤ offered 0 := hv _ List.mem_cons_self n rfl
      have h0 : n = 0 := Nat.le_zero.1 hn
      subst h0
      simp [senderCore, senderBody, senderElse, hrest]
    | err e =>
      have he : e = .eintr := by
        by_contra hne
        exact hnone _ List.mem_cons_self ⟨e, rfl, hne⟩
      subst he
      simp [senderCore, senderBody, senderElse, hrest]

/-- **`SenderCore` does not read the `errno` it finds exactly when no `send` returns 0.** For every
    buffer and all that `send` may answer: the call does the same whatever `errno` it finds, and
    returns where there is nothing to send, if and only if no `send` returns 0 before one of its
    own has failed or the loop has ended, and some `send` of nothing fails. -/
theorem senderCore_errno_iff (outbuffer : Bytes) (send : Nat → SendResult)
    (hv : ∀ k n, send k = .ok n → n ≤ offered outbuffer.length) :
    (∀ n e₁ e₂, (senderCore e₁ outbuffer (firstAnswers send n)).map SenderEnd.seen =
          (senderCore e₂ outbuffer (firstAnswers send n)).map SenderEnd.seen) ∧
        (outbuffer = [] → ∀ e, ∃ n, (senderCore e outbuffer (firstAnswers send n)).isSome = true) ↔
      (∀ n, ¬ ReadsStale outbuffer (firstAnswers send n)) ∧
        (outbuffer = [] → ∃ k, Fails (send k)) := by
  constructor
  · rintro ⟨hsame, hreturns⟩
    refine ⟨fun n => not_stale_of_same (hsame n), ?_⟩
    rintro rfl
    by_contra hnone
    obtain ⟨n, hn⟩ := hreturns rfl .eintr
    have hspins := senderCore_empty_none (forall_firstAnswers hv n)
      (forall_firstAnswers (fun k hk => hnone ⟨k, hk⟩) n)
    rw [hspins] at hn
    cases hn
  · rintro ⟨hstale, hfails⟩
    refine ⟨fun n e₁ e₂ => senderCore_isolated (hstale n), ?_⟩
    intro hempty e
    obtain ⟨k, hk⟩ := hfails hempty
    exact ⟨k + 1, senderCore_fails e outbuffer (mem_firstAnswers.2 ⟨k, Nat.lt_succ_self k, rfl⟩) hk⟩

/-- A part is sent, and then the socket is full: the same with any `errno`. -/
theorem senderCore_errno_iff_partial :
    (senderCore .zero [65, 66] [.ok 1, .err .eagain]).map SenderEnd.seen =
      (senderCore .eintr [65, 66] [.ok 1, .err .eagain]).map SenderEnd.seen := by
  let send (k : Nat) : SendResult := if k = 0 then .ok 1 else .err .eagain
  have hv : ∀ k n, send k = .ok n → n ≤ offered 2 := by
    intro k n hk
    by_cases h0 : k = 0
    · rw [show send k = .ok 1 from if_pos h0] at hk
      obtain rfl := SendResult.ok.inj hk
      decide
    · rw [show send k = .err .eagain from if_neg h0] at hk
      cases hk
  have hstale : ∀ n, ¬ ReadsStale [65, 66] (firstAnswers send n) := by
    intro n
    rcases n with - | - | n
    · simp [firstAnswers, ReadsStale]
    · simp [firstAnswers, send, ReadsStale]
    · simp [firstAnswers, send, List.range_succ_eq_map, ReadsStale]
  exact ((senderCore_errno_iff [65, 66] send hv).2 ⟨hstale, by simp⟩).1 2 .zero .eintr

/-- A connection is accepted, and then its socket reports an error that `recv` does not show. -/
def errorReported : List Input :=
  [.wait (.ok [(3, epollIn)]),
   .read { Answers.none with accept := [.ok 5 none, .err .eagain] },
   .write Answers.none,
   .wait (.ok [(5, epollErr)]),
   .read { Answers.none with recv := [.err .eagain] }]

/-- **The `errno` of others decides.** `Dispatcher` calls `Sender` on a connection that has nothing
    to send, so its `send` returns 0. With `EAGAIN` left by an earlier call `SenderCore` returns 0,
    with `EBADF` it returns -1, and with `EINTR` it does not return for as long as `send` returns
    0. -/
theorem senderCore_reads_errno :
    (∃ st st' ev, Started st ∧ Run Loop.Steps st errorReported st' ∧ st'.srv.heap 1 = some ev ∧
      ev.outbuffer = [] ∧ st'.revs = [{ events := epollErr, fd := 5 }] ∧
      (st'.srv.writeCall { events := epollErr, fd := 5 }).toOption = some (some (.sender, 1))) ∧
    (senderCore .eagain [] [.ok 0]).map SenderEnd.ret = some 0 ∧
    (senderCore (.other 9) [] [.ok 0]).map SenderEnd.ret = some (-1) ∧
    ∀ n, senderCore .eintr [] (firstAnswers (fun _ => .ok 0) n) = none := by
  refine ⟨?_, by decide, by decide, ?_⟩
  · obtain ⟨st, st', hmain, hrun, hp⟩ := exists_run .good errorReported
      (p := fun st => decide ((st.srv.heap 1).map Event.outbuffer = some [] ∧
        st.revs = [{ events := epollErr, fd := 5 }] ∧
        (st.srv.writeCall { events := epollErr, fd := 5 }).toOption = some (some (.sender, 1))))
      (by decide +kernel)
    obtain ⟨hempty, hrevs, hcall⟩ := of_decide_eq_true hp
    obtain ⟨ev, hev, hempty⟩ := Option.map_eq_some_iff.1 hempty
    exact ⟨st, st', ev, ⟨_, _, _, _, _, _, hmain⟩, hrun, hev, hempty, hrevs, hcall⟩
  · intro n
    refine senderCore_empty_none (forall_firstAnswers ?_ n) (forall_firstAnswers ?_ n)
    · intro k m hm
      obtain rfl := SendResult.ok.inj hm
      exact Nat.zero_le _
    · rintro k ⟨e, he, -⟩
      cases he

end Loop

end SystemCallLearn.Reactor
