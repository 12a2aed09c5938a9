import SystemCallLearn.Reactor.Proofs.RefineProofs
import SystemCallLearn.Reactor.Proofs.ConnectionProofs
import SystemCallLearn.Reactor.Proofs.SenderProofs
import SystemCallLearn.Reactor.Proofs.ResponseProofs

/-!
# The conversation of the server with a client

What a client has sent and what it has been sent, over a whole run of the server with any other
clients around: the bytes received on its `Event` are cut into requests, and what the kernel has
accepted for it is the responses to them, in order, up to what is still in the output buffer. The
calls have to be clean for that: the chunks received fit into the buffer and hold no zero byte, and
no `send` accepts a part of what it is offered. What the calls answer is arbitrary otherwise; a `recv`
that answers that it would block is one on a socket in non-blocking mode, which `Accepter` does not
set (see `BlockingProofs`).
-/

namespace SystemCallLearn.Reactor

open SystemCallLearn.Posix SystemCallLearn.Lib

/-- The bytes that the kernel accepts in a call. -/
def HandlerCall.sent (x : HandlerCall) : List (Option UInt8) :=
  match x.op with
  | .recver .. => []
  | .sender errno answers =>
    (senderCore errno x.outbuffer answers).elim [] fun r => r.accepted x.outbuffer

/-- What the calls have received. -/
def heard (xs : List HandlerCall) : Bytes := stream (xs.map HandlerCall.op)

/-- What the kernel has accepted in the calls. -/
def told (xs : List HandlerCall) : List (Option UInt8) := xs.flatMap HandlerCall.sent

/-- The chunks received leave room for the terminator and hold no zero byte; each `send` meets its
    contract, and the answers send the buffer whole. -/
def HandlerCall.Clean (x : HandlerCall) : Prop :=
  match x.op with
  | .recver _ _ answers => ∀ b ∈ received answers, b.length < onceSize ∧ 0 ∉ b
  | .sender _ answers =>
    (∀ a ∈ answers, SendAnswer x.outbuffer.length a) ∧
    (x.outbuffer ≠ [] → SendsWhole x.outbuffer.length answers)

instance (size : Nat) (a : SendResult) : Decidable (SendAnswer size a) :=
  match a with
  | .ok _ => inferInstanceAs (Decidable (_ ∧ _))
  | .err _ => inferInstanceAs (Decidable True)

instance (size : Nat) (answers : List SendResult) : Decidable (SendsWhole size answers) :=
  let before := accepts (answers.takeWhile (goesOn size))
  match h : answers.dropWhile (goesOn size) with
  | [] => .isTrue (by simp [SendsWhole, h])
  | .ok n :: _ => decidable_of_iff (n = size ∧ before = []) (by simp [SendsWhole, h, before])
  | .err e :: _ =>
    decidable_of_iff (if e = .eagain ∨ e = .ewouldblock then before = []
        else before = [] ∨ ∃ n ≤ size, before = [n])
      (by simp [SendsWhole, h, before])

instance (x : HandlerCall) : Decidable x.Clean :=
  match x with
  | ⟨_, .recver _ _ _⟩ => inferInstanceAs (Decidable (∀ _ ∈ _, _))
  | ⟨_, .sender _ _⟩ => inferInstanceAs (Decidable (_ ∧ _))

/-! ## One connection -/

/-- The calls `xs` have brought the connection where it is: what they have sent is what the kernel
    has accepted, and what they have received is cut into the requests parsed, each answered, up to
    those that came with the end of the connection. -/
structure Conn.Converses (xs : List HandlerCall) (c : Conn) : Prop where
  told : told xs = c.accepted
  delivered : c.Delivered
  answered : c.appended = c.parsed.flatMap response
  cut : ∃ ts r, Splits sep (heard xs) ts r ∧ c.parsed <+: ts ∧
    (c.closed = false → c.parsed = ts ∧ c.inbuffer = r)

section Conn

variable {c d : Conn} {x : HandlerCall} {xs : List HandlerCall}

theorem converses_new : Conn.new.Converses [] :=
  ⟨rfl, by simp [Conn.Delivered, Conn.new], rfl, [], [], .rest rfl, by simp [Conn.new],
    fun _ => ⟨rfl, rfl⟩⟩

theorem told_snoc (xs : List HandlerCall) (x : HandlerCall) :
    told (xs ++ [x]) = told xs ++ x.sent := by
  simp [told]

theorem heard_snoc (xs : List HandlerCall) (x : HandlerCall) :
    heard (xs ++ [x]) = heard xs ++ x.op.chunks.flatten := by
  simp [heard, stream]

/-- A clean call adds what it receives. -/
theorem piece_clean {answers : List RecvResult}
    (h : ∀ b ∈ received answers, b.length < onceSize ∧ 0 ∉ b) :
    piece answers = (received answers).flatten := by
  unfold piece
  rw [List.flatMap_def, List.map_congr_left fun b hb => cStr_eq_self.2 (h b hb).2, List.map_id']

theorem Conn.Makes.told (h : c.Makes x d) : d.accepted = c.accepted ++ x.sent := by
  obtain ⟨hout, hst⟩ := h
  have hopen := open_of_step hst
  unfold HandlerCall.sent
  cases hop : x.op with
  | recver errno frame answers =>
    simp only [hop, Conn.step, hopen, Bool.false_eq_true, if_false, Option.map_eq_some_iff] at hst
    obtain ⟨r, -, rfl⟩ := hst
    simp
  | sender errno answers =>
    simp only [hop, Conn.step, hopen, Bool.false_eq_true, if_false, Option.map_eq_some_iff] at hst
    obtain ⟨r, hr, rfl⟩ := hst
    simp [hout, hr]

theorem Conn.Makes.sendsClean (h : c.Makes x d) (hclean : x.Clean) : SendsClean c x.op := by
  unfold HandlerCall.Clean at hclean
  rw [h.1] at hclean
  cases hop : x.op with
  | recver errno frame answers => trivial
  | sender errno answers =>
    rw [hop] at hclean
    exact hclean

/-- A clean call of `Recver` takes the stream further; what it cannot parse because the connection
    ends is left. -/
theorem Conn.Converses.recver (h : c.Converses xs) {errno : Errno} {frame : Frame}
    {answers : List RecvResult} (hchunks : ∀ b ∈ received answers, b.length < onceSize ∧ 0 ∉ b)
    (hst : c.step (.recver errno frame answers) = some d) :
    d.appended = d.parsed.flatMap response ∧
    ∃ ts r, Splits sep (heard xs ++ (received answers).flatten) ts r ∧ d.parsed <+: ts ∧
      (d.closed = false → d.parsed = ts ∧ d.inbuffer = r) := by
  have hopen := open_of_step hst
  obtain ⟨ts, r, hcut, -, hall⟩ := h.cut
  obtain ⟨rfl, rfl⟩ := hall hopen
  simp only [Conn.step, hopen, Bool.false_eq_true, if_false, Option.map_eq_some_iff] at hst
  obtain ⟨run, hrun, rfl⟩ := hst
  rw [← piece_clean hchunks]
  rcases recver_cases hrun with ⟨-, hmore, hout, -⟩ | ⟨-, -, hout, htokens, hnext⟩
  · refine ⟨?_, _, _, hcut.append hmore, List.prefix_rfl, fun _ => ⟨rfl, rfl⟩⟩
    simp [hout, h.answered]
  · obtain ⟨ts', r', hrest⟩ := Splits.total sep_ne_nil (c.inbuffer ++ piece answers)
    refine ⟨by simp [hout, htokens, h.answered], _, _, hcut.append hrest, ?_, ?_⟩
    · simp [htokens]
    · simp [hnext]

/-- **The step lemma.** -/
theorem Conn.Converses.step (h : c.Converses xs) (hclean : x.Clean) (hst : c.Makes x d) :
    d.Converses (xs ++ [x]) := by
  have htold : Reactor.told (xs ++ [x]) = d.accepted := by rw [told_snoc, hst.told, h.told]
  have hdelivered : d.Delivered := delivered_step h.delivered (hst.sendsClean hclean) hst.2
  obtain ⟨-, hstep⟩ := hst
  unfold HandlerCall.Clean at hclean
  cases hop : x.op with
  | recver errno frame answers =>
    rw [hop] at hclean hstep
    obtain ⟨hanswered, hcut⟩ := h.recver hclean hstep
    refine ⟨htold, hdelivered, hanswered, ?_⟩
    rw [heard_snoc, hop]
    exact hcut
  | sender errno answers =>
    have hopen := open_of_step hstep
    obtain ⟨ts, r, hcut, hpre, hall⟩ := h.cut
    simp only [hop, Conn.step, hopen, Bool.false_eq_true, if_false, Option.map_eq_some_iff]
      at hstep
    obtain ⟨run, -, rfl⟩ := hstep
    refine ⟨htold, hdelivered, h.answered, ts, r, ?_, hpre, fun _ => hall hopen⟩
    rw [heard_snoc, hop]
    simpa [ConnOp.chunks] using hcut

/-- **The run lemma.** -/
theorem converses_run (h : Run Conn.Makes Conn.new xs c) (hclean : ∀ x ∈ xs, x.Clean) :
    c.Converses xs := by
  induction h with
  | nil => exact converses_new
  | @snoc xs c d x _ hst ih =>
    have hbefore := ih fun y hy => hclean y (List.mem_append_left _ hy)
    exact hbefore.step (hclean x (by simp)) hst

end Conn

/-! ## The server -/

section Server

variable {st st' : Loop} {is : List Input} {evp : EventPtr}

/-- The `Event` at `evp` after a run whose calls on it were clean. -/
theorem conversation_run (h0 : Started st) (h : Run Loop.Steps st is st')
    (hclean : ∀ x ∈ st.calls evp is, x.Clean) :
    ∃ ts r, Splits sep (heard (st.calls evp is)) ts r ∧
      told (st.calls evp is) <+: (ts.flatMap response).map some ∧
      ∀ ev, st'.srv.heap evp = some ev → ev.IsConn → ev.inbuffer = r ∧
        told (st.calls evp is) ++ ev.outbuffer.map some = (ts.flatMap response).map some := by
  obtain ⟨c, hrun, htracks⟩ := server_refines_conn h0 h evp
  have hc := converses_run hrun hclean
  obtain ⟨ts, r, hcut, ⟨more, hmore⟩, hall⟩ := hc.cut
  refine ⟨ts, r, hcut, ?_, ?_⟩
  · rw [hc.told, ← hmore, List.flatMap_append, List.map_append, ← hc.answered]
    exact hc.delivered.1.trans (List.prefix_append _ _)
  · intro ev hev hconn
    obtain ⟨hopen, hin, hout⟩ := htracks.live ev hev hconn
    obtain ⟨rfl, rfl⟩ := hall hopen
    rw [hc.told, ← hout, hc.delivered.2 hopen, hc.answered]
    exact ⟨hin.symm, rfl⟩

/-- **The server answers what it has been asked.** In every run of the server, with any number of
    clients and any answers of the kernel, and for every `Event`: if the calls on it were clean,
    what has been received on it is cut at `X` into requests, and what the kernel has accepted for
    it is a prefix of the responses to these requests in their order. While the connection lives,
    the rest of the responses is in its output buffer and the unfinished request in its input
    buffer. -/
theorem server_conversation (h0 : Started st) (h : Run Loop.Steps st is st') (evp : EventPtr)
    (hclean : ∀ x ∈ st.calls evp is, x.Clean) :
    ∃ ts r, Splits sep (heard (st.calls evp is)) ts r ∧
      told (st.calls evp is) <+: (ts.flatMap response).map some ∧
      ∀ ev, st'.srv.heap evp = some ev → ev.IsConn → ev.inbuffer = r ∧
        told (st.calls evp is) ++ ev.outbuffer.map some = (ts.flatMap response).map some :=
  conversation_run h0 h hclean

/-- Two connections are accepted and their requests come in pieces, the second one's in between;
    the first one is answered. -/
def conversationInputs : List Input :=
  [.wait (.ok [(3, epollIn)]),
   .read { Answers.none with accept := [.ok 5 none, .ok 6 none, .err .eagain] },
   .write Answers.none,
   .wait (.ok [(5, epollIn), (6, epollIn)]),
   .read { Answers.none with recv := [.ok [49, 43], .ok [50, 88, 51], .err .eagain] },
   .write Answers.none,
   .read { Answers.none with recv := [.ok [52, 43], .err .eagain] },
   .write Answers.none,
   .wait (.ok [(6, epollIn), (5, epollOut)]),
   .read { Answers.none with recv := [.ok [52, 88], .err .eagain] },
   .write Answers.none,
   .read Answers.none,
   .write { Answers.none with send := [.ok 6] }]

/-- The first client has sent `1+2X3` and been sent `1+2=3X`; the second one's response waits. -/
theorem server_conversation_two : ∃ st st', Started st ∧ Run Loop.Steps st conversationInputs st' ∧
    heard (st.calls 1 conversationInputs) = [49, 43, 50, 88, 51] ∧
    told (st.calls 1 conversationInputs) = [49, 43, 50, 61, 51, 88].map some ∧
    (∃ ts r, Splits sep (heard (st.calls 1 conversationInputs)) ts r ∧
      told (st.calls 1 conversationInputs) <+: (ts.flatMap response).map some) ∧
    ∃ ts r, Splits sep (heard (st.calls 2 conversationInputs)) ts r ∧
      ∀ ev, st'.srv.heap 2 = some ev → ev.IsConn → ev.inbuffer = r ∧
        told (st.calls 2 conversationInputs) ++ ev.outbuffer.map some =
          (ts.flatMap response).map some := by
  obtain ⟨st, st', hmain, hrun, -⟩ := exists_run .good conversationInputs
    (p := fun _ => true) (by decide +kernel)
  have h0 : Started st := ⟨_, _, _, _, _, _, hmain⟩
  have hall : ((Server.fresh.main 2 .good).toOption.all fun st => decide (
      (∀ x ∈ st.calls 1 conversationInputs, x.Clean) ∧
      (∀ x ∈ st.calls 2 conversationInputs, x.Clean) ∧
      heard (st.calls 1 conversationInputs) = [49, 43, 50, 88, 51] ∧
      told (st.calls 1 conversationInputs) = [49, 43, 50, 61, 51, 88].map some)) = true := by
    decide +kernel
  simp only [hmain, Except.toOption, Option.all_some] at hall
  obtain ⟨hclean1, hclean2, hheard, htold⟩ := of_decide_eq_true hall
  obtain ⟨ts, r, hcut, hprefix, -⟩ := server_conversation h0 hrun 1 hclean1
  obtain ⟨ts', r', hcut', -, hlive⟩ := server_conversation h0 hrun 2 hclean2
  exact ⟨st, st', h0, hrun, hheard, htold, ⟨ts, r, hcut, hprefix⟩, ts', r', hcut', hlive⟩

end Server

/-! ## Sums -/

section Sums

variable {qs : List (Int × Int)} {q : Int × Int}

/-- `a+b=` and the sum of the operands. -/
def sumText (q : Int × Int) : Bytes := request q.1 q.2 ++ [equals] ++ toString (q.1 + q.2)

/-- The operands and their sum are of type `int`. -/
def SumFits (q : Int × Int) : Prop := InInt q.1 ∧ InInt q.2 ∧ InInt (q.1 + q.2)

/-- The requests for sums, as they are sent. -/
def asked (qs : List (Int × Int)) : Bytes := qs.flatMap fun q => request q.1 q.2 ++ sep

theorem asked_eq (qs : List (Int × Int)) :
    asked qs = (qs.map fun q => request q.1 q.2).flatMap (· ++ sep) := by
  rw [asked, List.flatMap_map]

theorem splits_asked {rest : Bytes} (hrest : (88 : UInt8) ∉ rest) :
    Splits sep (asked qs ++ rest) (qs.map fun q => request q.1 q.2) rest := by
  rw [asked_eq]
  apply Splits.of_join_single _ hrest
  intro t ht
  obtain ⟨q, -, rfl⟩ := List.mem_map.1 ht
  exact sep_notMem_request q.1 q.2

/-- The responses to the requests for sums. -/
theorem responses_asked (hqs : ∀ q ∈ qs, SumFits q) :
    (qs.map fun q => request q.1 q.2).flatMap response = (qs.map sumText).flatMap (· ++ sep) := by
  rw [List.flatMap_map, List.flatMap_map, List.flatMap_def, List.flatMap_def]
  congr 1
  apply List.map_congr_left
  intro q hq
  obtain ⟨ha, hb, hsum⟩ := hqs q hq
  exact response_request ha hb hsum

theorem sep_notMem_sumText (q : Int × Int) : (88 : UInt8) ∉ sumText q := by
  have hrequest := sep_notMem_request q.1 q.2
  have hsum : (88 : UInt8) ∉ toString (q.1 + q.2) :=
    notMem_literal (isLiteral_toString _) (by decide) (by decide)
  have hequals : (88 : UInt8) ≠ equals := by decide
  simp [sumText, hrequest, hsum, hequals]

theorem splits_sums (qs : List (Int × Int)) :
    Splits sep ((qs.map sumText).flatMap (· ++ sep)) (qs.map sumText) [] := by
  apply splits_frames
  intro t ht
  obtain ⟨q, -, rfl⟩ := List.mem_map.1 ht
  exact sep_notMem_sumText q

variable {st st' : Loop} {is : List Input}

/-- **The server adds.** A client that has sent requests for sums, in whatever pieces, with any
    other clients around, and cuts what it has been sent at `X`, finds there the exact sums of its
    first requests in their order; all of them once nothing is left in the output buffer. -/
theorem server_adds (h0 : Started st) (h : Run Loop.Steps st is st') (evp : EventPtr)
    (hclean : ∀ x ∈ st.calls evp is, x.Clean) (qs : List (Int × Int)) (rest : Bytes)
    (hqs : ∀ q ∈ qs, SumFits q) (hrest : (88 : UInt8) ∉ rest)
    (hheard : heard (st.calls evp is) = asked qs ++ rest) :
    ∃ said ts r, told (st.calls evp is) = said.map some ∧ Splits sep said ts r ∧
      ts <+: qs.map sumText ∧
      ∀ ev, st'.srv.heap evp = some ev → ev.IsConn → ev.inbuffer = rest ∧
        (ev.outbuffer = [] → ts = qs.map sumText ∧ r = []) := by
  obtain ⟨ts₀, r₀, hcut, htold, hlive⟩ := conversation_run h0 h hclean
  rw [hheard] at hcut
  obtain ⟨rfl, rfl⟩ := hcut.unique (splits_asked hrest)
  rw [responses_asked hqs] at htold hlive
  obtain ⟨said, hprefix, hsaid⟩ := List.prefix_map_iff.1 htold
  obtain ⟨ts, r, hsplit⟩ := Splits.total sep_ne_nil said
  refine ⟨said, ts, r, hsaid, hsplit, ?_, ?_⟩
  · exact (splits_sums qs).tokens_first sep_ne_nil hsplit hprefix
  · intro ev hev hconn
    obtain ⟨hin, hall⟩ := hlive ev hev hconn
    refine ⟨hin, ?_⟩
    intro hempty
    rw [hempty, List.map_nil, List.append_nil, hsaid] at hall
    have hsame := List.map_injective_iff.2 (fun _ _ => Option.some.inj) hall
    rw [hsame] at hsplit
    exact hsplit.unique (splits_sums qs)

/-- The first client has asked for `1+2`, and been told. -/
theorem server_adds_three : ∃ st st' said ts r, Started st ∧
    Run Loop.Steps st conversationInputs st' ∧
    told (st.calls 1 conversationInputs) = said.map some ∧ Splits sep said ts r ∧
    ts <+: [sumText (1, 2)] ∧
    ∀ ev, st'.srv.heap 1 = some ev → ev.IsConn → ev.inbuffer = [51] ∧
      (ev.outbuffer = [] → ts = [sumText (1, 2)] ∧ r = []) := by
  obtain ⟨st, st', hmain, hrun, -⟩ := exists_run .good conversationInputs
    (p := fun _ => true) (by decide +kernel)
  have hall : ((Server.fresh.main 2 .good).toOption.all fun st => decide (
      (∀ x ∈ st.calls 1 conversationInputs, x.Clean) ∧
      heard (st.calls 1 conversationInputs) = asked [(1, 2)] ++ [51])) = true := by
    decide +kernel
  simp only [hmain, Except.toOption, Option.all_some] at hall
  obtain ⟨hclean, hheard⟩ := of_decide_eq_true hall
  have h0 : Started st := ⟨_, _, _, _, _, _, hmain⟩
  have hfits : ∀ q ∈ [((1, 2) : Int × Int)], SumFits q := by simp [SumFits, InInt, intMax]
  obtain ⟨said, ts, r, hsums⟩ :=
    server_adds h0 hrun 1 hclean [(1, 2)] [51] hfits (by decide) hheard
  exact ⟨st, st', said, ts, r, h0, hrun, hsums⟩

end Sums

end SystemCallLearn.Reactor
