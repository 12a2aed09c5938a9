import SystemCallLearn.Lib.Lts
import SystemCallLearn.Reactor.Proofs.RecverProofs
import Mathlib.Data.List.Forall2

/-!
# The responses of `Recver`

A response repeats its request up to the separator, so the stream of responses is cut where it was
joined and the answers can be matched to the requests. What is answered is every token with a `+` in
it, whatever stands around the `+`; and the number behind `=` is the sum where the sum is an `int`.
-/

namespace SystemCallLearn.Reactor

open SystemCallLearn.Posix SystemCallLearn.Lib

/-! ## One response -/

/-- The number in the answer to `seg`, as text. -/
def valueText (seg : Bytes) : Bytes :=
  match deserialize seg with
  | none => []
  | some (data1, data2) => toString (toInt (atoi (cStr data1) + atoi (cStr data2)))

/-- The answer `t` to `seg`: the operands around the `+` again, then `=` and an integer literal. -/
def AnswerTo (seg t : Bytes) : Prop :=
  ∃ data1 data2 value, deserialize seg = some (data1, data2) ∧ seg = data1 ++ [plus] ++ data2 ∧
    IsLiteral value ∧ t = seg ++ [equals] ++ value

/-- The addition in the answer to `seg` leaves the range of `int`. -/
def Overflows (seg : Bytes) : Prop :=
  ∃ data1 data2, deserialize seg = some (data1, data2) ∧
    ¬ InInt (atoi (cStr data1) + atoi (cStr data2))

/-- Two integer literals with one `+` between them. -/
def IsRequest (seg : Bytes) : Prop :=
  ∃ data1 data2, IsLiteral data1 ∧ IsLiteral data2 ∧ seg = data1 ++ [plus] ++ data2

/-- The request for the sum of `a` and `b`. -/
def request (a b : Int) : Bytes := toString a ++ [plus] ++ toString b

section Response

variable {seg : Bytes} {tokens : List Bytes}

/-- **Every token with a `+` in it is answered, and no other one.** -/
theorem response_eq (seg : Bytes) :
    response seg = if plus ∈ seg then seg ++ [equals] ++ valueText seg ++ sep else [] := by
  cases hd : deserialize seg with
  | none =>
    rw [if_neg (deserialize_eq_none.1 hd)]
    simp [response, hd]
  | some data =>
    obtain ⟨data1, data2⟩ := data
    obtain ⟨hseg, -⟩ := deserialize_eq_some.1 hd
    have hmem : plus ∈ seg := by simp [hseg]
    rw [if_pos hmem]
    simp only [response, valueText, hd]
    rw [hseg]

theorem response_ne_nil : response seg ≠ [] ↔ plus ∈ seg := by
  rw [response_eq]
  by_cases hmem : plus ∈ seg
  · simp [hmem, sep]
  · simp [hmem]

theorem valueText_literal (hmem : plus ∈ seg) : IsLiteral (valueText seg) := by
  cases hd : deserialize seg with
  | none => exact absurd hmem (deserialize_eq_none.1 hd)
  | some data =>
    simp only [valueText, hd]
    exact isLiteral_toString _

theorem answerTo_valueText (hmem : plus ∈ seg) :
    AnswerTo seg (seg ++ [equals] ++ valueText seg) := by
  cases hd : deserialize seg with
  | none => exact absurd hmem (deserialize_eq_none.1 hd)
  | some data =>
    exact ⟨data.1, data.2, valueText seg, hd, (deserialize_eq_some.1 hd).1,
      valueText_literal hmem, rfl⟩

/-! ## The stream of responses -/

/-- The responses are the answers, each with the separator behind it. -/
theorem responses_eq (tokens : List Bytes) : tokens.flatMap response =
    ((tokens.filter (plus ∈ ·)).map fun seg => seg ++ [equals] ++ valueText seg).flatMap
      (· ++ sep) := by
  induction tokens with
  | nil => rfl
  | cons seg tokens ih =>
    rw [List.flatMap_cons, ih, response_eq]
    by_cases hmem : plus ∈ seg
    · simp [hmem]
    · simp [hmem]

/-- There is no separator in the answer to a token without one. -/
theorem sep_notMem_answer (hseg : (88 : UInt8) ∉ seg) (hmem : plus ∈ seg) :
    (88 : UInt8) ∉ seg ++ [equals] ++ valueText seg := by
  have hvalue := notMem_literal (c := 88) (valueText_literal hmem) (by decide) (by decide)
  have hequals : (88 : UInt8) ≠ equals := by decide
  simp [hseg, hequals, hvalue]

/-- Frames are cut where they were joined. -/
theorem splits_frames (tokens : List Bytes) (htokens : ∀ seg ∈ tokens, (88 : UInt8) ∉ seg) :
    Splits sep (tokens.flatMap (· ++ sep)) tokens [] := by
  have hjoin := Splits.of_join_single htokens (List.not_mem_nil (a := (88 : UInt8)))
  rw [List.append_nil] at hjoin
  exact hjoin

/-- **The responses are cut where they were joined.** -/
theorem splits_responses (htokens : ∀ seg ∈ tokens, (88 : UInt8) ∉ seg) :
    Splits sep (tokens.flatMap response)
      ((tokens.filter (plus ∈ ·)).map fun seg => seg ++ [equals] ++ valueText seg) [] := by
  rw [responses_eq]
  apply splits_frames _
  intro t ht
  obtain ⟨seg, hseg, rfl⟩ := List.mem_map.1 ht
  obtain ⟨hin, hmem⟩ := List.mem_filter.1 hseg
  exact sep_notMem_answer (htokens seg hin) (of_decide_eq_true hmem)

end Response

/-! ## The rounds of `Recver` -/

section Recver

variable {errno : Errno} {frame : Frame} {inbuffer outbuffer : Bytes} {answers : List RecvResult}
  {r : RecverRun}

/-- A round that does not end with the error handler has cut the buffer into its requests. -/
theorem recver_splits (h : recver errno frame inbuffer outbuffer answers = some r)
    (hok : r.next ≠ .errer) : Splits sep (inbuffer ++ piece answers) r.tokens r.inbuffer := by
  rcases recver_cases h with ⟨-, hcut, -, -⟩ | ⟨-, -, -, -, hnext⟩
  · exact hcut
  · exact absurd hnext hok

end Recver

/-- **The responses can be split again and matched to their requests.** For every content of the
    input buffer and every successful round, `SplitSegment` cuts the text appended to the output
    buffer into one answer for each request with a `+` in it, in their order, and leaves nothing. -/
theorem recver_framed (errno : Errno) (frame : Frame) (inbuffer outbuffer : Bytes)
    (answers : List RecvResult) (r : RecverRun)
    (h : recver errno frame inbuffer outbuffer answers = some r) (hok : r.next ≠ .errer) :
    splitSegment (inbuffer ++ piece answers) [] sep = some (r.inbuffer, r.tokens) ∧
    ∃ text ts, r.outbuffer = outbuffer ++ text ∧ splitSegment text [] sep = some ([], ts) ∧
      List.Forall₂ AnswerTo (r.tokens.filter (plus ∈ ·)) ts := by
  have hcut := recver_splits h hok
  refine ⟨splitSegment_eq sep_ne_nil hcut, r.tokens.flatMap response, _, recver_appends h,
    splitSegment_eq sep_ne_nil (splits_responses fun seg hseg => hcut.notMem hseg), ?_⟩
  refine List.forall₂_map_right_iff.2 (List.forall₂_same.2 ?_)
  intro seg hseg
  exact answerTo_valueText (of_decide_eq_true (List.mem_filter.1 hseg).2)

/-- The stream `1+2X+X9X4`: two of its three requests have a `+`. -/
theorem recver_framed_three :
    ∃ r ts, recver .zero ⟨fun _ => 0, []⟩ [49, 43, 50, 88] []
        [.ok [43, 88, 57, 88, 52], .err .eagain] = some r ∧
      r.tokens = [[49, 43, 50], [43], [57]] ∧
      splitSegment r.outbuffer [] sep = some ([], ts) ∧
      List.Forall₂ AnswerTo [[49, 43, 50], [43]] ts := by
  have hsome : (recver .zero ⟨fun _ => 0, []⟩ [49, 43, 50, 88] []
      [.ok [43, 88, 57, 88, 52], .err .eagain]).any
        (fun r => decide (r.tokens = [[49, 43, 50], [43], [57]] ∧ r.next ≠ .errer)) = true := by
    decide +kernel
  obtain ⟨r, hr, htokens, hnext⟩ := exists_of_any hsome
  obtain ⟨-, text, ts, hout, hsplit, hanswers⟩ := recver_framed _ _ _ _ _ r hr hnext
  rw [htokens] at hanswers
  rw [List.nil_append] at hout
  exact ⟨r, ts, hr, htokens, hout ▸ hsplit, hanswers⟩

/-! ## The sum -/

section Sum

variable {a b : Int}

theorem plus_notMem_toString (z : Int) : plus ∉ toString z :=
  notMem_literal (isLiteral_toString z) (by decide) (by decide)

theorem deserialize_request (a b : Int) :
    deserialize (request a b) = some (toString a, toString b) :=
  deserialize_eq_some.2 ⟨rfl, plus_notMem_toString a⟩

/-- The operand that `Recver` reads is the one that was written. -/
theorem atoi_cStr_toString (h : InInt a) : atoi (cStr (toString a)) = a := by
  have hzero : (0 : UInt8) ∉ toString a :=
    notMem_literal (isLiteral_toString a) (by decide) (by decide)
  rw [cStr_eq_self.2 hzero, atoi_toString h]

theorem overflows_request (ha : InInt a) (hb : InInt b) :
    Overflows (request a b) ↔ ¬ InInt (a + b) := by
  unfold Overflows
  rw [deserialize_request]
  constructor
  · rintro ⟨data1, data2, hdata, hout⟩
    obtain ⟨rfl, rfl⟩ := Prod.mk.inj (Option.some.inj hdata)
    rwa [atoi_cStr_toString ha, atoi_cStr_toString hb] at hout
  · intro hout
    refine ⟨_, _, rfl, ?_⟩
    rwa [atoi_cStr_toString ha, atoi_cStr_toString hb]

theorem response_request (ha : InInt a) (hb : InInt b) (hsum : InInt (a + b)) :
    response (request a b) = request a b ++ [equals] ++ toString (a + b) ++ sep := by
  have hmem : plus ∈ request a b := by simp [request]
  rw [response_eq, if_pos hmem]
  simp only [valueText, deserialize_request]
  rw [atoi_cStr_toString ha, atoi_cStr_toString hb, toInt_of_inInt hsum]

theorem sep_notMem_request (a b : Int) : (88 : UInt8) ∉ request a b := by
  have ha := notMem_literal (c := 88) (isLiteral_toString a) (by decide) (by decide)
  have hb := notMem_literal (c := 88) (isLiteral_toString b) (by decide) (by decide)
  have hplus : (88 : UInt8) ≠ plus := by decide
  simp [request, ha, hb, hplus]

/-- A frame behind the end of another one is cut out of the stream as it is. -/
theorem splits_frame {pre seg post r : Bytes} {ts tokens : List Bytes}
    (hpre : Splits sep pre ts []) (hseg : (88 : UInt8) ∉ seg)
    (h : Splits sep (pre ++ seg ++ sep ++ post) tokens r) : ∃ ts', tokens = ts ++ seg :: ts' := by
  obtain ⟨ts', r', hpost⟩ := Splits.total sep_ne_nil post
  have hframe : Splits sep (seg ++ sep) [seg] [] := by
    have hjoin := splits_frames [seg] fun t ht => by rwa [List.mem_singleton.1 ht]
    rwa [List.flatMap_singleton] at hjoin
  have hrest : Splits sep (seg ++ sep ++ post) ([seg] ++ ts') r' := hframe.append hpost
  have hall : Splits sep (pre ++ (seg ++ sep ++ post)) (ts ++ ([seg] ++ ts')) r' :=
    hpre.append hrest
  rw [← List.append_assoc, ← List.append_assoc] at hall
  obtain ⟨rfl, -⟩ := h.unique hall
  exact ⟨ts', rfl⟩

end Sum

/-- **A sum is answered exactly when it is an `int`.** For all operands of type `int`, wherever
    their request stands in the stream of a successful round, it is answered with the request, `=`
    and the exact sum, without an overflow on the way, if and only if the sum is in the range of
    `int` as well. -/
theorem recver_exact_iff (a b : Int) (ha : InInt a) (hb : InInt b) (errno : Errno) (frame : Frame)
    (inbuffer outbuffer : Bytes) (answers : List RecvResult) (r : RecverRun)
    (h : recver errno frame inbuffer outbuffer answers = some r) (hok : r.next ≠ .errer)
    (pre post : Bytes) (ts : List Bytes) (hpre : Splits sep pre ts [])
    (hstream : inbuffer ++ piece answers = pre ++ request a b ++ sep ++ post) :
    ∃ ts', r.tokens = ts ++ request a b :: ts' ∧
      ((r.outbuffer = outbuffer ++ ts.flatMap response ++
            (request a b ++ [equals] ++ toString (a + b) ++ sep) ++ ts'.flatMap response ∧
          ¬ Overflows (request a b)) ↔
        InInt (a + b)) := by
  have hcut := recver_splits h hok
  rw [hstream] at hcut
  obtain ⟨ts', htokens⟩ := splits_frame hpre (sep_notMem_request a b) hcut
  refine ⟨ts', htokens, ?_⟩
  rw [overflows_request ha hb, not_not]
  refine ⟨fun hexact => hexact.2, fun hsum => ⟨?_, hsum⟩⟩
  rw [recver_appends h, htokens, List.flatMap_append, List.flatMap_cons,
    response_request ha hb hsum]
  simp only [List.append_assoc]

/-- `-7+2147483647X` behind another frame. -/
theorem recver_exact_iff_near_max :
    ∃ r, recver .zero ⟨fun _ => 0, []⟩ [] []
        [.ok ([49, 88] ++ request (-7) 2147483647 ++ sep), .err .eagain] = some r ∧
      r.outbuffer = request (-7) 2147483647 ++ [equals] ++ toString 2147483640 ++ sep := by
  have hsome : (recver .zero ⟨fun _ => 0, []⟩ [] []
      [.ok ([49, 88] ++ request (-7) 2147483647 ++ sep), .err .eagain]).any
        (fun r => decide (r.tokens = [[49], request (-7) 2147483647] ∧ r.next ≠ .errer)) =
      true := by
    decide +kernel
  obtain ⟨r, hr, htokens, hnext⟩ := exists_of_any hsome
  have hpre : Splits sep ([49, 88] : Bytes) [[49]] [] := splits_frames [[49]] (by simp)
  have hstream : ([] : Bytes) ++ piece [.ok ([49, 88] ++ request (-7) 2147483647 ++ sep),
      .err .eagain] = [49, 88] ++ request (-7) 2147483647 ++ sep ++ [] := by
    decide +kernel
  obtain ⟨ts', htokens', hiff⟩ := recver_exact_iff (-7) 2147483647 (by decide) (by decide) _ _ _ _ _
    r hr hnext [49, 88] [] [[49]] hpre hstream
  have hnil : ts' = [] := by simpa [htokens] using htokens'
  have hout := (hiff.2 (by decide)).1
  rw [hnil] at hout
  exact ⟨r, hr, by simpa [response, deserialize, firstOcc, plus] using hout⟩

/-- **A sum that is no `int`.** `2147483647+1X`: the addition overflows, and the answer is not the
    sum. -/
theorem recver_sum_overflows :
    InInt 2147483647 ∧ InInt 1 ∧ Overflows (request 2147483647 1) ∧
    ∃ r, recver .zero ⟨fun _ => 0, []⟩ [] []
        [.ok (request 2147483647 1 ++ sep), .err .eagain] = some r ∧
      r.tokens = [request 2147483647 1] ∧
      r.outbuffer ≠ request 2147483647 1 ++ [equals] ++ toString (2147483647 + 1) ++ sep := by
  refine ⟨by decide, by decide, (overflows_request (by decide) (by decide)).2 (by decide), ?_⟩
  have hsome : (recver .zero ⟨fun _ => 0, []⟩ [] []
      [.ok (request 2147483647 1 ++ sep), .err .eagain]).any
        (fun r => decide (r.tokens = [request 2147483647 1] ∧
          r.outbuffer ≠ request 2147483647 1 ++ [equals] ++ toString (2147483647 + 1) ++ sep)) =
      true := by
    decide +kernel
  obtain ⟨r, hr, htokens, hout⟩ := exists_of_any hsome
  exact ⟨r, hr, htokens, hout⟩

/-! ## What is answered -/

/-- **A token is answered exactly when there is a `+` in it.** In every round the text appended is
    that of the responses to the tokens in order, and a token gets one if and only if it contains a
    `+`; two integer literals with a `+` between them are among these. -/
theorem recver_answers_iff (errno : Errno) (frame : Frame) (inbuffer outbuffer : Bytes)
    (answers : List RecvResult) (r : RecverRun)
    (h : recver errno frame inbuffer outbuffer answers = some r) :
    r.outbuffer = outbuffer ++ r.tokens.flatMap response ∧
    ∀ seg ∈ r.tokens, (response seg ≠ [] ↔ plus ∈ seg) ∧ (IsRequest seg → response seg ≠ []) := by
  refine ⟨recver_appends h, ?_⟩
  intro seg _
  refine ⟨response_ne_nil, ?_⟩
  rintro ⟨data1, data2, -, -, rfl⟩
  exact response_ne_nil.2 (by simp)

/-- The stream `1+2X12X`: only the first token is answered. -/
theorem recver_answers_iff_two :
    ∃ r, recver .zero ⟨fun _ => 0, []⟩ [] [] [.ok [49, 43, 50, 88, 49, 50, 88], .err .eagain] =
        some r ∧
      r.tokens = [[49, 43, 50], [49, 50]] ∧
      r.outbuffer = response [49, 43, 50] ++ response [49, 50] ∧
      response [49, 43, 50] ≠ [] ∧ ¬ response [49, 50] ≠ [] := by
  have hsome : (recver .zero ⟨fun _ => 0, []⟩ [] []
      [.ok [49, 43, 50, 88, 49, 50, 88], .err .eagain]).any
        (fun r => decide (r.tokens = [[49, 43, 50], [49, 50]])) = true := by
    decide +kernel
  obtain ⟨r, hr, htokens⟩ := exists_of_any hsome
  obtain ⟨hout, hanswered⟩ := recver_answers_iff _ _ _ _ _ r hr
  rw [htokens] at hout hanswered
  refine ⟨r, hr, htokens, by simpa using hout, ?_, ?_⟩
  · exact (hanswered _ (by simp)).1.2 (by decide)
  · exact fun hne => absurd ((hanswered _ (by simp)).1.1 hne) (by decide)

/-- The token `1+` is no sum of two literals, and it is answered `1+=1X`. -/
theorem recver_answers_missing_operand :
    ¬ IsRequest [49, 43] ∧
    ∃ r, recver .zero ⟨fun _ => 0, []⟩ [] [] [.ok [49, 43, 88], .err .eagain] = some r ∧
      r.tokens = [[49, 43]] ∧ r.outbuffer = [49, 43, 61, 49, 88] := by
  constructor
  · rintro ⟨data1, data2, h1, h2, heq⟩
    have hlen := congrArg List.length heq
    have hpos : ∀ s, IsLiteral s → 0 < s.length := by
      rintro s ⟨digits, hs, hne, -⟩
      have hdigits := List.length_pos_of_ne_nil hne
      rcases hs with rfl | rfl
      · exact hdigits
      · exact Nat.succ_pos _
    have hone := hpos data1 h1
    have htwo := hpos data2 h2
    simp only [List.length_append, List.length_cons, List.length_nil] at hlen
    omega
  · have hsome : (recver .zero ⟨fun _ => 0, []⟩ [] [] [.ok [49, 43, 88], .err .eagain]).any
        (fun r => decide (r.tokens = [[49, 43]] ∧ r.outbuffer = [49, 43, 61, 49, 88])) = true := by
      decide +kernel
    obtain ⟨r, hr, htokens, hout⟩ := exists_of_any hsome
    exact ⟨r, hr, htokens, hout⟩

end SystemCallLearn.Reactor
