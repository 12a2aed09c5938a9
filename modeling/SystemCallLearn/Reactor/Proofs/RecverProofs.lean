import SystemCallLearn.Reactor.Service
import SystemCallLearn.Reactor.Proofs.UtilProofs

/-!
# `Recver`: what a call adds and answers

`RecverCore` adds the C strings of the chunks it receives to the input buffer, `SplitSegment` cuts
the buffer at `X` (`Splits`), and the loop over the tokens appends one response for each. Together
they give the inversion lemma `recver_cases`, from which the later results about connections are
derived.
-/

namespace SystemCallLearn.Reactor

open SystemCallLearn.Posix SystemCallLearn.Lib

/-! ## The responses -/

/-- The loop over the tokens appends their responses in order. -/
theorem respond_eq (outbuffer : Bytes) (tokens : List Bytes) :
    respond outbuffer tokens = outbuffer ++ tokens.flatMap response := by
  induction tokens generalizing outbuffer with
  | nil => simp [respond]
  | cons seg tokens ih => simp [respond, ih]

/-! ## `RecverCore` -/

/-- A zero byte behind a byte string ends the C string at the latest there. -/
theorem cStr_append_zero (s : Bytes) : cStr (s ++ [0]) = cStr s := by
  induction s with
  | nil => rfl
  | cons c s ih =>
    by_cases hc : c = 0
    · simp [cStr, hc]
    · have htail : List.takeWhile (fun c => decide (c ≠ 0)) (s ++ [0]) =
          List.takeWhile (fun c => decide (c ≠ 0)) s := ih
      simp only [cStr, List.cons_append]
      rw [List.takeWhile_cons_of_pos (by simpa using hc),
        List.takeWhile_cons_of_pos (by simpa using hc), htail]

/-- **What `inbuffer += buffer` adds.** After `recv` and `buffer[s] = '\0'` the buffer holds the C
    string of the bytes received, whatever it held before. -/
theorem cString_received (f : Frame) (bytes : Bytes) :
    ((f.fill bytes).put bytes.length 0).cString (bytes.length + 1) = cStr bytes := by
  have hmem : (List.range (bytes.length + 1)).map ((f.fill bytes).put bytes.length 0).mem =
      bytes ++ [0] := by
    apply List.ext_getElem (by simp)
    intro i hi hi'
    simp only [List.length_append, List.length_singleton] at hi'
    simp only [List.getElem_map, List.getElem_range, Frame.put, Frame.fill]
    by_cases hlast : i = bytes.length
    · subst hlast
      simp
    · have hlt : i < bytes.length := by omega
      rw [Function.update_of_ne hlast]
      simp [hlt]
  rw [Frame.cString, hmem, cStr_append_zero]

/-- The chunks that a call receives: an interrupt is skipped, any other failure and the end of the
    stream end the loop. -/
def received : List RecvResult → List Bytes
  | [] => []
  | .ok bytes :: rest => if 0 < bytes.length then bytes :: received rest else []
  | .err e :: rest => if e = .eintr then received rest else []

/-- What the call returns: 1 once the socket is drained, 0 at the end of the stream, -1 after a
    failure. -/
def verdict : List RecvResult → Option Int
  | [] => none
  | .ok bytes :: rest => if 0 < bytes.length then verdict rest else some 0
  | .err e :: rest =>
    if e = .eintr then verdict rest
    else if e = .eagain ∨ e = .ewouldblock then some 1
    else some (-1)

/-- The bytes that a call adds to the input buffer. -/
def piece (answers : List RecvResult) : Bytes := (received answers).flatMap cStr

theorem verdict_cases {answers : List RecvResult} {v : Int} (h : verdict answers = some v) :
    v = 1 ∨ v = 0 ∨ v = -1 := by
  induction answers with
  | nil => cases h
  | cons a answers ih =>
    cases a with
    | ok bytes =>
      simp only [verdict] at h
      split_ifs at h
      · exact ih h
      · simp only [Option.some.injEq] at h
        omega
    | err e =>
      simp only [verdict] at h
      split_ifs at h
      · exact ih h
      · simp only [Option.some.injEq] at h
        omega
      · simp only [Option.some.injEq] at h
        omega

/-- **`RecverCore`.** It returns the verdict and adds the piece to the input buffer. -/
theorem recverCore_eq (errno : Errno) (frame : Frame) (inbuffer : Bytes)
    (answers : List RecvResult) :
    (recverCore errno frame inbuffer answers).map (fun r => (r.ret, r.inbuffer)) =
      (verdict answers).map fun v => (v, inbuffer ++ piece answers) := by
  induction answers generalizing errno frame inbuffer with
  | nil => rfl
  | cons a answers ih =>
    cases a with
    | ok bytes =>
      by_cases hpos : 0 < bytes.length
      · simp only [recverCore, verdict, piece, received, if_pos hpos]
        rw [ih, cString_received]
        simp [piece]
      · simp [recverCore, verdict, piece, received, hpos]
    | err e =>
      by_cases hintr : e = .eintr
      · simp only [recverCore, verdict, piece, received, if_pos hintr]
        exact ih e frame inbuffer
      · by_cases hblock : e = .eagain ∨ e = .ewouldblock
        · simp [recverCore, verdict, piece, received, hintr, hblock]
        · simp [recverCore, verdict, piece, received, hintr, hblock]

/-- A call that has its verdict returns. -/
theorem recverCore_returns (errno : Errno) (frame : Frame) (inbuffer : Bytes)
    {answers : List RecvResult} {v : Int} (hv : verdict answers = some v) :
    ∃ r, recverCore errno frame inbuffer answers = some r ∧ r.ret = v ∧
      r.inbuffer = inbuffer ++ piece answers := by
  have hcore := recverCore_eq errno frame inbuffer answers
  rw [hv, Option.map_some] at hcore
  obtain ⟨r, hr, hpair⟩ := Option.map_eq_some_iff.1 hcore
  obtain ⟨hret, hin⟩ := Prod.mk.inj hpair
  exact ⟨r, hr, hret, hin⟩

/-! ## `Recver` -/

section Recver

variable {errno : Errno} {frame : Frame} {inbuffer outbuffer : Bytes} {answers : List RecvResult}
  {r : RecverRun}

theorem sep_ne_nil : sep ≠ [] := by simp [sep]

/-- **Inversion of `Recver`.** Either the verdict is 1 and the buffer has been cut into requests,
    each answered in order; or the error handler is called with the requests left in the buffer. -/
theorem recver_cases (h : recver errno frame inbuffer outbuffer answers = some r) :
    (verdict answers = some 1 ∧ Splits sep (inbuffer ++ piece answers) r.tokens r.inbuffer ∧
      r.outbuffer = outbuffer ++ r.tokens.flatMap response ∧
      r.next = if r.outbuffer.isEmpty then .nothing else .enableRW true true) ∨
    ((verdict answers = some 0 ∨ verdict answers = some (-1)) ∧
      r.inbuffer = inbuffer ++ piece answers ∧ r.outbuffer = outbuffer ∧ r.tokens = [] ∧
      r.next = .errer) := by
  have hcore := recverCore_eq errno frame inbuffer answers
  simp only [recver] at h
  cases hc : recverCore errno frame inbuffer answers with
  | none => simp [hc] at h
  | some c =>
    rw [hc] at hcore h
    simp only [Option.map_some] at hcore
    obtain ⟨v, hv, hpair⟩ := Option.map_eq_some_iff.1 hcore.symm
    obtain ⟨hret, hin⟩ : v = c.ret ∧ inbuffer ++ piece answers = c.inbuffer := by
      simpa using hpair
    subst hret
    rcases verdict_cases hv with hone | hle
    · obtain ⟨ts, rest, hcut⟩ := Splits.total sep_ne_nil c.inbuffer
      simp only [hone, splitSegment_eq sep_ne_nil hcut] at h
      simp only [show ¬ (1 : Int) ≤ 0 by omega, if_false, Option.some.injEq] at h
      subst h
      rw [hin]
      exact .inl ⟨hone ▸ hv, hcut, respond_eq _ _, rfl⟩
    · have hle' : c.ret ≤ 0 := by omega
      simp only [if_pos hle', Option.some.injEq] at h
      subst h
      refine .inr ⟨?_, hin.symm, rfl, rfl, rfl⟩
      rcases hle with h0 | h1
      · exact .inl (h0 ▸ hv)
      · exact .inr (h1 ▸ hv)

/-- A call that has its verdict returns. -/
theorem recver_returns (errno : Errno) (frame : Frame) (inbuffer outbuffer : Bytes) {v : Int}
    (hv : verdict answers = some v) :
    ∃ r, recver errno frame inbuffer outbuffer answers = some r := by
  obtain ⟨c, hc, -, -⟩ := recverCore_returns errno frame inbuffer hv
  obtain ⟨ts, rest, hcut⟩ := Splits.total sep_ne_nil c.inbuffer
  simp only [recver, hc, splitSegment_eq sep_ne_nil hcut]
  by_cases hle : c.ret ≤ 0
  · exact ⟨_, if_pos hle⟩
  · exact ⟨_, if_neg hle⟩

theorem recver_appends (h : recver errno frame inbuffer outbuffer answers = some r) :
    r.outbuffer = outbuffer ++ r.tokens.flatMap response := by
  rcases recver_cases h with ⟨-, -, hout, -⟩ | ⟨-, -, hout, htokens, -⟩
  · exact hout
  · simp [hout, htokens]

end Recver

end SystemCallLearn.Reactor
