import SystemCallLearn.Reactor.Connection
import SystemCallLearn.Reactor.Proofs.RecverProofs
import SystemCallLearn.Lib.Lts

/-!
# `SenderCore`: what reaches the kernel

`total` and `size` are declared inside the loop, so every iteration offers the whole output buffer
again and nothing of it is ever erased. A byte is therefore sent twice as soon as two calls of
`send` accept something, and a partial `send` before a would-block leaves its bytes to be sent
again: `SendsWhole` is what has to hold of the answers for neither to happen.
-/

namespace SystemCallLearn.Reactor

open SystemCallLearn.Posix SystemCallLearn.Lib

/-- The bytes that `send` is offered for an output buffer of this size. -/
def offered (size : Nat) : Nat := toSizeT (toInt size)

theorem offered_of_le {size : Nat} (h : size ≤ intMax) : offered size = size := by
  unfold offered
  rw [toInt_of_le h, toSizeT_of_le h]

/-- What `send` may answer: it accepts between one byte and all that it is offered, or nothing when
    the buffer is empty, or it fails. -/
def SendAnswer (size : Nat) : SendResult → Prop
  | .ok n => (0 < size → 0 < n) ∧ n ≤ offered size
  | .err _ => True

/-- The answer after which the loop of `SenderCore` goes on: an interrupt, or a number of bytes that
    is not the size as an `int`. -/
def goesOn (size : Nat) : SendResult → Bool
  | .ok n => toInt n ≠ toInt size
  | .err e => e = .eintr

/-- The numbers of bytes accepted. -/
def accepts (answers : List SendResult) : List Nat :=
  answers.filterMap fun
    | .ok n => some n
    | .err _ => none

/-- Before the answer that ends the loop no `send` accepts bytes; if that answer accepts bytes it
    accepts the whole buffer. Only where the call fails may one `send` before have accepted a part
    of the buffer. Of answers that do not end the loop nothing is asked: that call has not returned,
    and it may send without end. -/
def SendsWhole (size : Nat) (answers : List SendResult) : Prop :=
  let before := accepts (answers.takeWhile (goesOn size))
  match answers.dropWhile (goesOn size) with
  | [] => True
  | .ok n :: _ => n = size ∧ before = []
  | .err e :: _ =>
    if e = .eagain ∨ e = .ewouldblock then before = []
    else before = [] ∨ ∃ n ≤ size, before = [n]

/-- The kernel has taken the bytes of the buffer from the first one on, each once; and where the
    call returns 1 or 0, the bytes accepted and the bytes left are the bytes given, and 1 says that
    none is left. -/
structure Lossless (outbuffer : Bytes) (r : SenderEnd) : Prop where
  once : r.positions = List.range r.positions.length ∧ r.positions.length ≤ outbuffer.length
  whole : r.ret = 1 ∨ r.ret = 0 →
    r.accepted outbuffer ++ r.outbuffer.map some = outbuffer.map some ∧
    (r.ret = 1 ↔ r.outbuffer = [])

/-- What `SenderCore` returns and leaves when the answer ends its loop. -/
def Ends (outbuffer : Bytes) (answer : SendResult) (r : SenderEnd) : Prop :=
  match answer with
  | .ok _ => r.ret = 1 ∧ r.outbuffer = []
  | .err e =>
    if e = .eagain ∨ e = .ewouldblock then r.ret = 0 ∧ r.outbuffer = outbuffer
    else r.ret = -1 ∧ r.outbuffer = outbuffer

section Core

variable {errno : Errno} {outbuffer : Bytes} {answers : List SendResult} {answer : SendResult}
  {r : SenderEnd}

/-! ## One iteration -/

/-- The call that every iteration makes: `total` is 0 again and `size` is the whole buffer. -/
def wholeCall (size : Nat) (answer : SendResult) : SendCall where
  total := 0
  len := offered size
  answer := answer

/-- The positions taken by answers to whole calls. -/
def taken (answers : List SendResult) : List Nat := (accepts answers).flatMap List.range

@[simp] theorem wholeCall_positions (size : Nat) :
    (wholeCall size answer).positions = taken [answer] := by
  cases answer <;> simp [SendCall.positions, wholeCall, taken, accepts]

theorem call_eq_wholeCall :
    { total := (0 : Int).toNat, len := toSizeT (toInt outbuffer.length - 0), answer := answer } =
      wholeCall outbuffer.length answer := by
  simp [wholeCall, offered]

/-- An iteration that goes on makes the whole call and leaves the buffer alone. -/
theorem senderBody_goesOn (errno : Errno) (hv : SendAnswer outbuffer.length answer)
    (hne : outbuffer ≠ []) (h : goesOn outbuffer.length answer = true) :
    ∃ e, senderBody errno outbuffer answer = .inr (wholeCall outbuffer.length answer, e) := by
  cases answer with
  | ok n =>
    have hpos : 0 < n := hv.1 (List.length_pos_of_ne_nil hne)
    have hne' : toInt n ≠ toInt outbuffer.length := by simpa [goesOn] using h
    exact ⟨errno, by simp only [senderBody, call_eq_wholeCall]; simp [hpos, hne']⟩
  | err e =>
    have he : e = .eintr := by simpa [goesOn] using h
    subst he
    exact ⟨.eintr, by simp only [senderBody, call_eq_wholeCall]; simp [senderElse]⟩

/-- An iteration that does not go on makes the whole call and ends the function. -/
theorem senderBody_ends (errno : Errno) (hv : SendAnswer outbuffer.length answer)
    (hne : outbuffer ≠ []) (h : goesOn outbuffer.length answer = false) :
    ∃ r, senderBody errno outbuffer answer = .inl r ∧
      r.calls = [wholeCall outbuffer.length answer] ∧ Ends outbuffer answer r := by
  cases answer with
  | ok n =>
    have hpos : 0 < n := hv.1 (List.length_pos_of_ne_nil hne)
    have heq : toInt n = toInt outbuffer.length := by simpa [goesOn] using h
    exact ⟨{ ret := 1, outbuffer := [], calls := [wholeCall outbuffer.length (.ok n)],
             errno := errno },
      by simp only [senderBody, call_eq_wholeCall]; simp [hpos, heq], rfl, rfl, rfl⟩
  | err e =>
    have hne' : e ≠ .eintr := by simpa [goesOn] using h
    by_cases hb : e = .eagain ∨ e = .ewouldblock
    · exact ⟨{ ret := 0, outbuffer := outbuffer,
               calls := [wholeCall outbuffer.length (.err e)], errno := e },
        by simp only [senderBody, call_eq_wholeCall]; simp [senderElse, hne', hb], rfl,
        by simp [Ends, hb]⟩
    · exact ⟨{ ret := -1, outbuffer := outbuffer,
               calls := [wholeCall outbuffer.length (.err e)], errno := e },
        by simp only [senderBody, call_eq_wholeCall]; simp [senderElse, hne', hb], rfl,
        by simp [Ends, hb]⟩

/-! ## The whole loop -/

theorem taken_cons (a : SendResult) (l : List SendResult) :
    taken (a :: l) = taken [a] ++ taken l := by
  simp only [taken, accepts]
  rw [← List.flatMap_append, ← List.filterMap_append]
  rfl

/-- **Inversion of `SenderCore`.** The loop takes the answers that go on and the one that ends it,
    offering the same buffer each time. -/
theorem senderCore_calls (hv : ∀ a ∈ answers, SendAnswer outbuffer.length a) (hne : outbuffer ≠ [])
    (h : senderCore errno outbuffer answers = some r) :
    ∃ answer rest, answers.dropWhile (goesOn outbuffer.length) = answer :: rest ∧
      r.calls = (answers.takeWhile (goesOn outbuffer.length) ++ [answer]).map
        (wholeCall outbuffer.length) ∧
      Ends outbuffer answer r := by
  induction answers generalizing errno r with
  | nil => simp [senderCore] at h
  | cons a answers ih =>
    have hva : SendAnswer outbuffer.length a := hv a List.mem_cons_self
    cases hg : goesOn outbuffer.length a with
    | true =>
      obtain ⟨e, hbody⟩ := senderBody_goesOn errno hva hne hg
      simp only [senderCore, hbody, Option.map_eq_some_iff] at h
      obtain ⟨r', hr', rfl⟩ := h
      obtain ⟨answer, rest, hdrop, hcalls, hends⟩ :=
        ih (fun b hb => hv b (List.mem_cons_of_mem _ hb)) hr'
      refine ⟨answer, rest, by simp [hg, hdrop], ?_, ?_⟩
      · simp [hcalls, hg]
      · cases answer <;> exact hends
    | false =>
      obtain ⟨r', hbody, hcalls, hends⟩ := senderBody_ends errno hva hne hg
      simp only [senderCore, hbody, Option.some.injEq] at h
      subst h
      exact ⟨a, answers, by simp [hg], by simp [hg, hcalls], hends⟩

theorem taken_eq_flatMap (l : List SendResult) : taken l = l.flatMap fun a => taken [a] := by
  induction l with
  | nil => rfl
  | cons a l ih => rw [taken_cons, ih, List.flatMap_cons]

/-- The positions that the calls take. -/
theorem senderCore_ends (hv : ∀ a ∈ answers, SendAnswer outbuffer.length a) (hne : outbuffer ≠ [])
    (h : senderCore errno outbuffer answers = some r) :
    ∃ answer rest, answers.dropWhile (goesOn outbuffer.length) = answer :: rest ∧
      r.positions = taken (answers.takeWhile (goesOn outbuffer.length)) ++ taken [answer] ∧
      Ends outbuffer answer r := by
  obtain ⟨answer, rest, hdrop, hcalls, hends⟩ := senderCore_calls hv hne h
  refine ⟨answer, rest, hdrop, ?_, hends⟩
  have hwhole : ∀ a, (wholeCall outbuffer.length a).positions = taken [a] := fun a =>
    wholeCall_positions outbuffer.length
  rw [SenderEnd.positions, hcalls, List.flatMap_map]
  simp only [hwhole]
  rw [← taken_eq_flatMap, taken, accepts, List.filterMap_append, List.flatMap_append]
  rfl

/-- `SenderCore` that has not returned has met no answer that ends its loop. -/
theorem senderCore_none (hv : ∀ a ∈ answers, SendAnswer outbuffer.length a) (hne : outbuffer ≠ [])
    (h : senderCore errno outbuffer answers = none) :
    answers.dropWhile (goesOn outbuffer.length) = [] := by
  induction answers generalizing errno with
  | nil => rfl
  | cons a answers ih =>
    have hva : SendAnswer outbuffer.length a := hv a List.mem_cons_self
    cases hg : goesOn outbuffer.length a with
    | true =>
      obtain ⟨e, hbody⟩ := senderBody_goesOn errno hva hne hg
      simp only [senderCore, hbody, Option.map_eq_none_iff] at h
      rw [List.dropWhile_cons_of_pos hg]
      exact ih (fun b hb => hv b (List.mem_cons_of_mem _ hb)) h
    | false =>
      obtain ⟨r', hbody, -⟩ := senderBody_ends errno hva hne hg
      simp [senderCore, hbody] at h

/-! ## An empty buffer -/

theorem positions_empty {c : SendCall} (hv : SendAnswer 0 c.answer) : c.positions = [] := by
  unfold SendCall.positions
  cases hc : c.answer with
  | ok n =>
    rw [hc] at hv
    have hn : n ≤ offered 0 := hv.2
    have h0 : n = 0 := Nat.le_zero.1 hn
    simp [h0]
  | err e => rfl

theorem senderElse_empty {c : SendCall} {total : Int} (hv : SendAnswer 0 c.answer)
    (h : senderElse errno [] total c = some r) : r.positions = [] ∧ r.outbuffer = [] := by
  simp only [senderElse] at h
  split_ifs at h
  all_goals
    obtain rfl := Option.some.inj h
    simp [SenderEnd.positions, positions_empty hv]

theorem senderBody_empty (errno : Errno) (hv : SendAnswer 0 answer) :
    (∃ e, senderBody errno [] answer = .inr (wholeCall 0 answer, e)) ∨
    ∃ r, senderBody errno [] answer = .inl r ∧ r.positions = [] ∧ r.outbuffer = [] := by
  have hbody : ∃ e, senderBody errno [] answer =
      (senderElse e [] 0 (wholeCall 0 answer)).elim (.inr (wholeCall 0 answer, e)) .inl := by
    cases answer with
    | ok n =>
      have hn : n ≤ offered 0 := hv.2
      have h0 : n = 0 := Nat.le_zero.1 hn
      subst h0
      refine ⟨errno, ?_⟩
      simp only [senderBody, wholeCall, offered, Nat.lt_irrefl, if_false, List.length_nil,
        Int.sub_zero, Int.toNat_zero]
      cases senderElse errno [] 0 _ <;> rfl
    | err e =>
      refine ⟨e, ?_⟩
      simp only [senderBody, wholeCall, offered, List.length_nil, Int.sub_zero, Int.toNat_zero]
      cases senderElse e [] 0 _ <;> rfl
  obtain ⟨e, hbody⟩ := hbody
  cases he : senderElse e [] 0 (wholeCall 0 answer) with
  | none => exact .inl ⟨e, by rw [hbody, he]; rfl⟩
  | some r => exact .inr ⟨r, by rw [hbody, he]; rfl, senderElse_empty hv he⟩

/-- On an empty buffer `SenderCore` sends nothing and leaves nothing. -/
theorem senderCore_empty (hv : ∀ a ∈ answers, SendAnswer 0 a)
    (h : senderCore errno [] answers = some r) : r.positions = [] ∧ r.outbuffer = [] := by
  induction answers generalizing errno r with
  | nil => simp [senderCore] at h
  | cons a answers ih =>
    have hva : SendAnswer 0 a := hv a List.mem_cons_self
    rcases senderBody_empty errno hva with ⟨e, hbody⟩ | ⟨r', hbody, hr'⟩
    · simp only [senderCore, hbody, Option.map_eq_some_iff] at h
      obtain ⟨r', hr', rfl⟩ := h
      obtain ⟨hp, ho⟩ := ih (fun b hb => hv b (List.mem_cons_of_mem _ hb)) hr'
      refine ⟨?_, ho⟩
      have hcall : (wholeCall 0 a).positions = [] := positions_empty hva
      simp only [SenderEnd.positions, List.flatMap_cons, hcall, List.nil_append]
      exact hp
    · simp only [senderCore, hbody, Option.some.injEq] at h
      subst h
      exact hr'

/-! ## When nothing is lost -/

@[simp] theorem taken_ok (n : Nat) : taken [.ok n] = List.range n := by simp [taken, accepts]

@[simp] theorem taken_err (e : Errno) : taken [.err e] = [] := rfl

theorem accepted_of_range {k : Nat} (hk : k ≤ outbuffer.length) (h : r.positions = List.range k) :
    r.accepted outbuffer = (outbuffer.take k).map some := by
  apply List.ext_getElem?
  intro i
  simp only [SenderEnd.accepted, h, List.getElem?_map, List.getElem?_take]
  by_cases hi : i < k
  · simp [hi, Nat.lt_of_lt_of_le hi hk]
  · simp [hi]

theorem accepts_pos (hv : ∀ a ∈ answers, SendAnswer outbuffer.length a) (hne : outbuffer ≠ [])
    {n : Nat} (hn : n ∈ accepts answers) : 0 < n := by
  simp only [accepts, List.mem_filterMap] at hn
  obtain ⟨a, ha, hsome⟩ := hn
  cases a with
  | ok m =>
    obtain rfl : m = n := by simpa using hsome
    exact (hv _ ha).1 (List.length_pos_of_ne_nil hne)
  | err e => cases hsome

/-- Once bytes are accepted the positions start again at 0, so a second acceptance breaks the
    order. -/
theorem range_flatMap_once {n : Nat} {ns : List Nat} (hn : 0 < n) (hpos : ∀ m ∈ ns, 0 < m)
    {k : Nat} (h : List.range n ++ ns.flatMap List.range = List.range k) : ns = [] ∧ n = k := by
  have hlen := congrArg List.length h
  simp only [List.length_append, List.length_range] at hlen
  cases ns with
  | nil => exact ⟨rfl, by simpa using hlen⟩
  | cons m ns =>
    have hm : 0 < m := hpos m List.mem_cons_self
    have hget := congrArg (fun l => l[n]?) h
    simp only [List.flatMap_cons, List.length_append, List.length_range] at hlen hget
    rw [List.getElem?_append_right (by simp), List.getElem?_append_left (by simpa using hm)] at hget
    simp only [List.length_range, Nat.sub_self, List.getElem?_range hm,
      List.getElem?_range (show n < k by omega), Option.some.injEq] at hget
    omega

theorem taken_range_ok {n k : Nat} {l : List SendResult} (hn : 0 < n)
    (hpos : ∀ m ∈ accepts l, 0 < m) (h : taken l ++ taken [.ok n] = List.range k) :
    accepts l = [] ∧ n = k := by
  simp only [taken_ok] at h
  cases hl : accepts l with
  | nil =>
    rw [taken, hl] at h
    have hlen := congrArg List.length h
    exact ⟨rfl, by simpa using hlen⟩
  | cons m ms =>
    have hm : 0 < m := hpos m (by simp [hl])
    have hms : ∀ m' ∈ ms ++ [n], 0 < m' := by
      intro m' hm'
      rcases List.mem_append.1 hm' with hm' | hm'
      · exact hpos m' (by simp [hl, hm'])
      · obtain rfl : m' = n := by simpa using hm'
        exact hn
    have hrange : List.range m ++ (ms ++ [n]).flatMap List.range = List.range k := by
      rw [← h, taken, hl]
      simp
    have hnil := (range_flatMap_once hm hms hrange).1
    simp at hnil

/-- Where every `send` takes all or nothing, `SenderCore` loses nothing. -/
theorem lossless_of_sendsWhole (hv : ∀ a ∈ answers, SendAnswer outbuffer.length a)
    (hne : outbuffer ≠ []) (h : senderCore errno outbuffer answers = some r)
    (hw : SendsWhole outbuffer.length answers) : Lossless outbuffer r := by
  obtain ⟨answer, rest, hdrop, hpos, hends⟩ := senderCore_ends hv hne h
  simp only [SendsWhole, hdrop] at hw
  cases answer with
  | ok n =>
    obtain ⟨rfl, hnone⟩ := hw
    obtain ⟨hr1, hr2⟩ := hends
    have hrange : r.positions = List.range outbuffer.length := by
      rw [hpos, taken, hnone]
      simp
    refine ⟨by simp [hrange], ?_⟩
    intro _
    rw [accepted_of_range le_rfl hrange, hr2]
    simp [hr1]
  | err e =>
    rw [taken_err, List.append_nil] at hpos
    by_cases hb : e = .eagain ∨ e = .ewouldblock
    · simp only [if_pos hb] at hw
      simp only [Ends, if_pos hb] at hends
      have hrange : r.positions = List.range 0 := by
        rw [hpos, taken, hw]
        simp
      refine ⟨by simp [hrange], ?_⟩
      intro _
      rw [accepted_of_range (Nat.zero_le _) hrange, hends.2]
      simp [hends.1, hne]
    · simp only [if_neg hb] at hw
      simp only [Ends, if_neg hb] at hends
      refine ⟨?_, fun hret => by simp [hends.1] at hret⟩
      rcases hw with hw | ⟨n, hn, hw⟩
      · simp [hpos, taken, hw]
      · simp [hpos, taken, hw, hn]

/-- Where `SenderCore` loses nothing, every `send` took all or nothing: bytes accepted before the
    end would be accepted or left a second time. -/
theorem sendsWhole_of_lossless (hv : ∀ a ∈ answers, SendAnswer outbuffer.length a)
    (hne : outbuffer ≠ []) (h : senderCore errno outbuffer answers = some r)
    (hl : Lossless outbuffer r) : SendsWhole outbuffer.length answers := by
  obtain ⟨answer, rest, hdrop, hpos, hends⟩ := senderCore_ends hv hne h
  have haccepts : ∀ m ∈ accepts (answers.takeWhile (goesOn outbuffer.length)), 0 < m := fun m =>
    accepts_pos (fun a ha => hv a ((List.takeWhile_sublist _).mem ha)) hne
  have hmem : answer ∈ answers := (List.dropWhile_sublist _).mem (by rw [hdrop]; simp)
  obtain ⟨⟨hrange, hle⟩, hwhole⟩ := hl
  have hlen : (r.accepted outbuffer).length = r.positions.length := by simp [SenderEnd.accepted]
  simp only [SendsWhole, hdrop]
  cases answer with
  | ok n =>
    obtain ⟨hr1, hr2⟩ := hends
    have hn : 0 < n := (hv _ hmem).1 (List.length_pos_of_ne_nil hne)
    obtain ⟨hnone, hnk⟩ := taken_range_ok hn haccepts (hpos.symm.trans hrange)
    have hfull := congrArg List.length (hwhole (.inl hr1)).1
    rw [hr2] at hfull
    simp only [List.length_append, List.length_map, List.length_nil] at hfull
    exact ⟨by omega, hnone⟩
  | err e =>
    rw [taken_err, List.append_nil] at hpos
    by_cases hb : e = .eagain ∨ e = .ewouldblock
    · simp only [if_pos hb]
      simp only [Ends, if_pos hb] at hends
      have hfull := congrArg List.length (hwhole (.inr hends.1)).1
      rw [hends.2] at hfull
      simp only [List.length_append, List.length_map, hlen] at hfull
      cases hl : accepts (answers.takeWhile (goesOn outbuffer.length)) with
      | nil => rfl
      | cons m ms =>
        have hm : 0 < m := haccepts m (by simp [hl])
        rw [hpos, taken, hl] at hfull
        simp only [List.flatMap_cons, List.length_append, List.length_range] at hfull
        omega
    · simp only [if_neg hb]
      cases hl : accepts (answers.takeWhile (goesOn outbuffer.length)) with
      | nil => exact .inl rfl
      | cons m ms =>
        rw [hl] at haccepts
        have hsplit : List.range m ++ ms.flatMap List.range = List.range r.positions.length := by
          rw [← hrange, hpos, taken, hl]
          simp
        obtain ⟨hms, hmk⟩ := range_flatMap_once (haccepts m List.mem_cons_self)
          (fun m' hm' => haccepts m' (List.mem_cons_of_mem _ hm')) hsplit
        exact .inr ⟨m, by omega, by rw [hms]⟩

end Core

/-! ## Runs of a connection -/

/-- A call of `Sender` meets the contract of `send`, and its answers send the buffer whole. A call
    on an empty buffer has nothing to send. -/
def SendsClean (c : Conn) : ConnOp → Prop
  | .recver .. => True
  | .sender _ answers =>
    (∀ a ∈ answers, SendAnswer c.outbuffer.length a) ∧
    (c.outbuffer ≠ [] → SendsWhole c.outbuffer.length answers)

/-- What the kernel has accepted on the connection is what `Recver` has appended, from its start
    on; on an open connection the rest of it is in the output buffer. -/
def Conn.Delivered (c : Conn) : Prop :=
  c.accepted <+: c.appended.map some ∧
  (c.closed = false → c.accepted ++ c.outbuffer.map some = c.appended.map some)

/-- One clean call of `Sender` on a buffer, empty or not. -/
theorem senderCore_clean {errno : Errno} {outbuffer : Bytes} {answers : List SendResult}
    {r : SenderEnd} (hv : ∀ a ∈ answers, SendAnswer outbuffer.length a)
    (hw : outbuffer ≠ [] → SendsWhole outbuffer.length answers)
    (h : senderCore errno outbuffer answers = some r) :
    r.accepted outbuffer <+: outbuffer.map some ∧
    (r.next ≠ .errer → r.accepted outbuffer ++ r.outbuffer.map some = outbuffer.map some) := by
  by_cases hne : outbuffer = []
  · subst hne
    obtain ⟨hpos, hout⟩ := senderCore_empty hv h
    simp [SenderEnd.accepted, hpos, hout]
  · obtain ⟨⟨hrange, hle⟩, hwhole⟩ := lossless_of_sendsWhole hv hne h (hw hne)
    constructor
    · rw [accepted_of_range hle hrange]
      exact (List.take_prefix _ _).map some
    · intro hnext
      refine (hwhole ?_).1
      simp only [SenderEnd.next] at hnext
      split_ifs at hnext with h1 h0
      · exact .inl h1
      · exact .inr h0
      · exact absurd rfl hnext

/-- Every clean step of a connection keeps it delivered. -/
theorem delivered_step {c d : Conn} {op : ConnOp} (hc : c.Delivered) (hok : SendsClean c op)
    (h : c.step op = some d) : d.Delivered := by
  simp only [Conn.step] at h
  split_ifs at h with hclosed
  have hall := hc.2 (by simpa using hclosed)
  cases op with
  | recver errno frame answers =>
    simp only [Option.map_eq_some_iff] at h
    obtain ⟨r, hr, rfl⟩ := h
    have happ := recver_appends hr
    refine ⟨hc.1.trans ?_, ?_⟩
    · rw [List.map_append]
      exact List.prefix_append _ _
    · intro _
      simp only [happ, List.drop_left, List.map_append, ← hall, List.append_assoc]
  | sender errno answers =>
    simp only [Option.map_eq_some_iff] at h
    obtain ⟨r, hr, rfl⟩ := h
    obtain ⟨htaken, hwhole⟩ := senderCore_clean hok.1 hok.2 hr
    constructor
    · simp only [← hall]
      exact (List.prefix_append_right_inj _).2 htaken
    · intro hopen
      have hnext : r.next ≠ .errer := by simpa using hopen
      simp only [List.append_assoc, hwhole hnext, hall]

/-- **`SenderCore` sends each byte once exactly when no `send` accepts a part of the buffer.** For
    every non-empty buffer and all answers that `send` may give, the call loses nothing if and only
    if `SendsWhole` holds of the answers; and in every run of a connection whose `Sender` calls all
    satisfy it, the bytes accepted are the bytes appended, in order and each once, up to those that
    are still in the buffer. -/
theorem senderCore_lossless_iff (errno : Errno) (outbuffer : Bytes) (answers : List SendResult)
    (ops : List ConnOp) (c : Conn) :
    (outbuffer ≠ [] → (∀ a ∈ answers, SendAnswer outbuffer.length a) →
      ((∀ r, senderCore errno outbuffer answers = some r → Lossless outbuffer r) ↔
        SendsWhole outbuffer.length answers)) ∧
    (Run (Guarded SendsClean (Step Conn.step)) Conn.new ops c → c.Delivered) := by
  refine ⟨fun hne hv => ⟨?_, ?_⟩, ?_⟩
  · intro hl
    cases hr : senderCore errno outbuffer answers with
    | none =>
      simp only [SendsWhole, senderCore_none hv hne hr]
    | some r => exact sendsWhole_of_lossless hv hne hr (hl r hr)
  · intro hw r hr
    exact lossless_of_sendsWhole hv hne hr hw
  · intro hrun
    refine hrun.invariant (fun _ _ _ hc hst => delivered_step hc hst.1 hst.2) ?_
    simp [Conn.Delivered, Conn.new]

/-- An interrupted call that then sends everything; and a request answered and sent. -/
theorem senderCore_lossless_iff_interrupted :
    (∀ r, senderCore .zero [65, 66] [.err .eintr, .ok 2] = some r → Lossless [65, 66] r) ∧
    ∃ c, Run (Guarded SendsClean (Step Conn.step)) Conn.new
        [.recver .zero ⟨fun _ => 0, []⟩ [.ok [49, 43, 50, 88], .err .eagain],
         .sender .eagain [.ok 6]] c ∧
      c.accepted = [some 49, some 43, some 50, some 61, some 51, some 88] ∧ c.Delivered := by
  have hanswers : ∀ a ∈ [SendResult.err .eintr, .ok 2], SendAnswer 2 a := by
    simp [SendAnswer, offered_of_le (show 2 ≤ intMax by decide)]
  have hwhole : SendsWhole 2 [.err .eintr, .ok 2] := by
    simp [SendsWhole, goesOn, accepts]
  let c : Conn :=
    { inbuffer := [], outbuffer := [49, 43, 50, 61, 51, 88], closed := false,
      parsed := [[49, 43, 50]], appended := [49, 43, 50, 61, 51, 88], accepted := [] }
  have hsend : SendsClean c (.sender .eagain [.ok 6]) := by
    constructor
    · simp [SendAnswer, c, offered_of_le (show 6 ≤ intMax by decide)]
    · intro _
      simp [SendsWhole, goesOn, accepts, c]
  have hrun : Run (Guarded SendsClean (Step Conn.step)) Conn.new
      [.recver .zero ⟨fun _ => 0, []⟩ [.ok [49, 43, 50, 88], .err .eagain],
       .sender .eagain [.ok 6]]
      { c with outbuffer := [], accepted := c.outbuffer.map some } :=
    .snoc (.snoc .nil ⟨trivial, by unfold Step; decide +kernel⟩)
      ⟨hsend, by unfold Step; decide +kernel⟩
  obtain ⟨hcall, hdelivered⟩ :=
    senderCore_lossless_iff .zero [65, 66] [.err .eintr, .ok 2] _ _
  exact ⟨(hcall (by simp) hanswers).2 hwhole, _, hrun, rfl, hdelivered hrun⟩

/-- **A byte is sent twice.** Two bytes are given, the kernel takes one and then two: the call
    returns 1 and the first byte has been sent twice. -/
theorem senderCore_sends_twice :
    (∀ a ∈ [SendResult.ok 1, .ok 2], SendAnswer 2 a) ∧
    ∃ r, senderCore .zero [65, 66] [.ok 1, .ok 2] = some r ∧ r.ret = 1 ∧ r.outbuffer = [] ∧
      r.accepted [65, 66] = [some 65, some 65, some 66] ∧
      ¬ (r.accepted [65, 66] ++ r.outbuffer.map some = [some 65, some 66]) := by
  refine ⟨by simp [SendAnswer, offered_of_le (show 2 ≤ intMax by decide)], ?_⟩
  exact ⟨{ ret := 1, outbuffer := [], calls := [⟨0, 2, .ok 1⟩, ⟨0, 2, .ok 2⟩], errno := .zero },
    by decide, rfl, rfl, by decide, by decide⟩

end SystemCallLearn.Reactor
