import SystemCallLearn.Reactor.Connection
import SystemCallLearn.Reactor.Proofs.RecverProofs
import SystemCallLearn.Lib.Lts
import Mathlib.Data.List.TakeWhile

/-!
# The stream of a connection

What a connection has parsed and answered is what cutting the whole stream at `X` gives, as long as
its `Recver` calls return 1: how the stream is divided among the calls does not matter. A call that
sees the end of the stream parses nothing, so the division matters at the end.
-/

namespace SystemCallLearn.Reactor

open SystemCallLearn.Posix SystemCallLearn.Lib

/-- The bytes that a call adds to an input buffer: those it leaves in an empty one. -/
def ConnOp.added : ConnOp → Bytes
  | .recver errno frame answers =>
    match recverCore errno frame [] answers with
    | none => []
    | some r => r.inbuffer
  | .sender .. => []

/-- `RecverCore` returns `v`; nothing is said of `Sender`. -/
def ConnOp.Returns (v : Int) : ConnOp → Prop
  | .recver errno frame answers => (recverCore errno frame [] answers).map RecverEnd.ret = some v
  | .sender .. => True

section Calls

variable {errno : Errno} {frame : Frame} {answers : List RecvResult} {v : Int}

theorem returns_recver :
    (ConnOp.recver errno frame answers).Returns v ↔ verdict answers = some v := by
  have hcore := congrArg (Option.map Prod.fst) (recverCore_eq errno frame [] answers)
  simp only [Option.map_map, Function.comp_def, Option.map_id'] at hcore
  rw [ConnOp.Returns, ← hcore]

theorem added_recver (errno : Errno) (frame : Frame) (h : verdict answers = some v) :
    (ConnOp.recver errno frame answers).added = piece answers := by
  have hcore := recverCore_eq errno frame [] answers
  rw [h, Option.map_some] at hcore
  obtain ⟨c, hc, hpair⟩ := Option.map_eq_some_iff.1 hcore
  simp only [ConnOp.added, hc]
  simpa using congrArg Prod.snd hpair

end Calls

/-! ## Cutting the stream -/

/-- The input buffer of an open connection holds no finished request. -/
def Conn.Unfinished (c : Conn) : Prop := c.closed = false → firstOcc sep c.inbuffer = none

theorem open_of_step {c d : Conn} {op : ConnOp} (h : c.step op = some d) : c.closed = false := by
  simp only [Conn.step] at h
  split_ifs at h with hclosed
  simpa using hclosed

/-- `d` comes from `c` by cutting `stream` off at its separators: the tokens are parsed and
    answered, and the rest is the input buffer. -/
def Conn.Cuts (c : Conn) (stream : Bytes) (d : Conn) : Prop :=
  ∃ ts, Splits sep (c.inbuffer ++ stream) ts d.inbuffer ∧ d.parsed = c.parsed ++ ts ∧
    d.appended = c.appended ++ ts.flatMap response

section Cuts

variable {c d e : Conn} {s s' : Bytes} {op : ConnOp} {ops : List ConnOp}

theorem Conn.Cuts.unfinished (h : c.Cuts s d) : firstOcc sep d.inbuffer = none := by
  obtain ⟨ts, hcut, -⟩ := h
  exact hcut.unfinished

theorem Conn.Cuts.refl (h : firstOcc sep c.inbuffer = none) : c.Cuts [] c :=
  ⟨[], by simpa using Splits.rest h, by simp, by simp⟩

theorem Conn.Cuts.trans (h : c.Cuts s d) (h' : d.Cuts s' e) : c.Cuts (s ++ s') e := by
  obtain ⟨ts, hcut, hparsed, happended⟩ := h
  obtain ⟨ts', hcut', hparsed', happended'⟩ := h'
  refine ⟨ts ++ ts', ?_, ?_, ?_⟩
  · rw [← List.append_assoc]
    exact hcut.append hcut'
  · rw [hparsed', hparsed, List.append_assoc]
  · rw [happended', happended, List.flatMap_append, List.append_assoc]

/-- The stream determines what is parsed, answered and left. -/
theorem Conn.Cuts.unique (h : c.Cuts s d) (h' : c.Cuts s e) :
    e.inbuffer = d.inbuffer ∧ e.parsed = d.parsed ∧ e.appended = d.appended := by
  obtain ⟨ts, hcut, hparsed, happended⟩ := h
  obtain ⟨ts', hcut', hparsed', happended'⟩ := h'
  obtain ⟨rfl, hrest⟩ := hcut.unique hcut'
  exact ⟨hrest.symm, by rw [hparsed, hparsed'], by rw [happended, happended']⟩

/-- A successful `Recver` cuts what it adds. -/
theorem cuts_recver {errno : Errno} {frame : Frame} {answers : List RecvResult}
    (hv : verdict answers = some 1) (h : c.step (.recver errno frame answers) = some d) :
    c.Cuts (piece answers) d ∧ d.closed = false := by
  have hopen := open_of_step h
  simp only [Conn.step, hopen, Bool.false_eq_true, if_false, Option.map_eq_some_iff] at h
  obtain ⟨r, hr, rfl⟩ := h
  rcases recver_cases hr with ⟨-, hcut, hout, hnext⟩ | ⟨hv', -⟩
  · refine ⟨⟨r.tokens, hcut, rfl, ?_⟩, ?_⟩
    · simp [hout]
    · simp only [hnext]
      split_ifs <;> simp
  · rw [hv] at hv'
    simp at hv'

/-- **The step lemma.** A call that does not fail to read cuts what it adds, with the input buffer
    unfinished before. -/
theorem cuts_step (hc : firstOcc sep c.inbuffer = none) (hop : op.Returns 1)
    (h : c.step op = some d) : c.Cuts op.added d := by
  cases op with
  | recver errno frame answers =>
    have hv := returns_recver.1 hop
    rw [added_recver errno frame hv]
    exact (cuts_recver hv h).1
  | sender errno answers =>
    have hopen := open_of_step h
    simp only [Conn.step, hopen, Bool.false_eq_true, if_false, Option.map_eq_some_iff] at h
    obtain ⟨r, hr, rfl⟩ := h
    exact Conn.Cuts.refl hc

/-- **The run lemma.** Calls that do not fail to read cut all they add. -/
theorem cuts_run (hc : firstOcc sep c.inbuffer = none) (hops : ∀ op ∈ ops, op.Returns 1)
    (h : Run (Step Conn.step) c ops d) : c.Cuts (ops.flatMap ConnOp.added) d := by
  induction h with
  | nil => exact Conn.Cuts.refl hc
  | @snoc ops t u a _ hst ih =>
    have hcut := ih fun op hop => hops op (List.mem_append_left _ hop)
    have hlast := cuts_step hcut.unfinished (hops a (by simp)) hst
    simpa using hcut.trans hlast

theorem unfinished_step (hc : c.Unfinished) (h : c.step op = some d) : d.Unfinished := by
  intro hopen
  have hc' := hc (open_of_step h)
  by_cases hop : op.Returns 1
  · exact (cuts_step hc' hop h).unfinished
  · cases op with
    | recver errno frame answers =>
      have hclosed := open_of_step h
      simp only [Conn.step, hclosed, Bool.false_eq_true, if_false, Option.map_eq_some_iff] at h
      obtain ⟨r, hr, rfl⟩ := h
      rcases recver_cases hr with ⟨hv, -⟩ | ⟨-, -, -, -, hnext⟩
      · exact absurd (returns_recver.2 hv) hop
      · simp [hnext] at hopen
    | sender errno answers => exact absurd trivial hop

theorem unfinished_reachable (h : Reachable (Step Conn.step) Conn.new c) : c.Unfinished :=
  h.invariant (fun _ _ _ hc hst => unfinished_step hc hst) fun _ => rfl

end Cuts

/-- **The division of the stream does not matter.** From every open connection, after any calls
    whose `RecverCore`s return 1, the requests parsed since, the responses appended and the input
    buffer are those of one single call that adds the same bytes; and the requests are exactly the
    tokens of the stream, each parsed and answered once and in order. -/
theorem recver_cut_independent (c : Conn) (hc : Reachable (Step Conn.step) Conn.new c)
    (hopen : c.closed = false) (ops : List ConnOp) (d : Conn)
    (hrun : Run (Step Conn.step) c ops d) (hops : ∀ op ∈ ops, op.Returns 1) :
    (∃ ts, Splits sep (c.inbuffer ++ ops.flatMap ConnOp.added) ts d.inbuffer ∧
      d.parsed = c.parsed ++ ts ∧ d.appended = c.appended ++ ts.flatMap response) ∧
    ∀ (errno : Errno) (frame : Frame) (answers : List RecvResult),
      (ConnOp.recver errno frame answers).Returns 1 →
      (ConnOp.recver errno frame answers).added = ops.flatMap ConnOp.added →
      ∃ e, c.step (.recver errno frame answers) = some e ∧
        e.inbuffer = d.inbuffer ∧ e.parsed = d.parsed ∧ e.appended = d.appended := by
  have hstart : firstOcc sep c.inbuffer = none := unfinished_reachable hc hopen
  have hcuts := cuts_run hstart hops hrun
  refine ⟨hcuts, ?_⟩
  intro errno frame answers hret hadded
  have hv := returns_recver.1 hret
  obtain ⟨r, hr⟩ := recver_returns errno frame c.inbuffer c.outbuffer hv
  have hstep : ∃ e, c.step (.recver errno frame answers) = some e := by
    simp [Conn.step, hopen, hr]
  obtain ⟨e, he⟩ := hstep
  have hone := (cuts_recver hv he).1
  rw [← added_recver errno frame hv, hadded] at hone
  exact ⟨e, he, hcuts.unique hone⟩

/-- Three calls cut `1+2X3+4X5` inside the first and the second request, with a call of `Sender`
    in between. -/
theorem recver_cut_independent_three :
    ∃ c d e : Conn,
      Run (Step Conn.step) Conn.new
        [.recver .zero ⟨fun _ => 0, []⟩ [.ok [49, 43], .err .eagain]] c ∧
      Run (Step Conn.step) c
        [.recver .zero ⟨fun _ => 0, []⟩ [.ok [50, 88, 51], .err .eagain],
         .sender .eagain [.ok 6],
         .recver .zero ⟨fun _ => 0, []⟩ [.ok [43, 52], .ok [88, 53], .err .eagain]] d ∧
      c.step (.recver .zero ⟨fun _ => 0, []⟩ [.ok [50, 88, 51, 43, 52, 88, 53], .err .eagain]) =
        some e ∧
      d.parsed = [[49, 43, 50], [51, 43, 52]] ∧ d.inbuffer = [53] ∧
      e.inbuffer = d.inbuffer ∧ e.parsed = d.parsed ∧ e.appended = d.appended := by
  let ops : List ConnOp :=
    [.recver .zero ⟨fun _ => 0, []⟩ [.ok [50, 88, 51], .err .eagain],
     .sender .eagain [.ok 6],
     .recver .zero ⟨fun _ => 0, []⟩ [.ok [43, 52], .ok [88, 53], .err .eagain]]
  obtain ⟨c, hc, hcin, hopen⟩ := exec_exists Conn.step Conn.new
    [.recver .zero ⟨fun _ => 0, []⟩ [.ok [49, 43], .err .eagain]]
    (p := fun c => c = { Conn.new with inbuffer := [49, 43] } ∧ c.closed = false)
    (by decide +kernel)
  subst hcin
  obtain ⟨d, hd, hparsed, hin⟩ := exec_exists Conn.step { Conn.new with inbuffer := [49, 43] } ops
    (p := fun d => d.parsed = [[49, 43, 50], [51, 43, 52]] ∧ d.inbuffer = [53])
    (by decide +kernel)
  have hops : ∀ op ∈ ops, op.Returns 1 := by
    simp [ops, ConnOp.Returns, recverCore]
  obtain ⟨e, he, hsame⟩ := (recver_cut_independent _ ⟨_, hc⟩ hopen ops d hd hops).2 .zero
    ⟨fun _ => 0, []⟩ [.ok [50, 88, 51, 43, 52, 88, 53], .err .eagain]
    (by simp [ConnOp.Returns, recverCore]) (by decide +kernel)
  exact ⟨_, d, e, hc, hd, he, hparsed, hin, hsame⟩

/-! ## The end of the stream -/

/-- The chunks that a call receives. -/
def ConnOp.chunks : ConnOp → List Bytes
  | .recver _ _ answers => received answers
  | .sender .. => []

/-- The bytes that the calls receive: the stream the peer has sent. -/
def stream (ops : List ConnOp) : Bytes := (ops.flatMap ConnOp.chunks).flatten

section EndOfStream

variable {c d : Conn} {op : ConnOp} {ops : List ConnOp}

theorem returns_of_open (h : c.step op = some d) (hd : d.closed = false) : op.Returns 1 := by
  cases op with
  | recver errno frame answers =>
    have hopen := open_of_step h
    simp only [Conn.step, hopen, Bool.false_eq_true, if_false, Option.map_eq_some_iff] at h
    obtain ⟨r, hr, rfl⟩ := h
    rcases recver_cases hr with ⟨hv, -⟩ | ⟨-, -, -, -, hnext⟩
    · exact returns_recver.2 hv
    · simp [hnext] at hd
  | sender errno answers => trivial

theorem returns_of_run (h : Run (Step Conn.step) c ops d) (hd : d.closed = false) :
    ∀ op ∈ ops, op.Returns 1 := by
  induction h with
  | nil => simp
  | @snoc ops t u a _ hst ih =>
    intro op hop
    rcases List.mem_append.1 hop with hop | hop
    · exact ih (open_of_step hst) op hop
    · obtain rfl : op = a := by simpa using hop
      exact returns_of_open hst hd

/-- What calls add is the C strings of the chunks they receive. -/
theorem added_eq_cStr (hops : ∀ op ∈ ops, op.Returns 1) :
    ops.flatMap ConnOp.added = (ops.flatMap ConnOp.chunks).flatMap cStr := by
  induction ops with
  | nil => rfl
  | cons op ops ih =>
    have hone : op.added = op.chunks.flatMap cStr := by
      cases op with
      | recver errno frame answers =>
        exact added_recver errno frame (returns_recver.1 (hops _ List.mem_cons_self))
      | sender errno answers => rfl
    rw [List.flatMap_cons, List.flatMap_cons, List.flatMap_append, hone,
      ih fun op hop => hops op (List.mem_cons_of_mem _ hop)]

theorem cStr_sublist (chunks : List Bytes) : (chunks.flatMap cStr).Sublist chunks.flatten := by
  induction chunks with
  | nil => exact List.Sublist.refl _
  | cons b chunks ih => exact (List.takeWhile_sublist _).append ih

theorem zero_notMem_cStr (chunks : List Bytes) : 0 ∉ chunks.flatMap cStr := by
  intro h
  obtain ⟨b, -, hb⟩ := List.mem_flatMap.1 h
  simpa using List.mem_takeWhile_imp hb

/-- A chunk is its C string, or has a zero byte behind it. -/
theorem cStr_split (b : Bytes) : cStr b = b ∨ ∃ z, b = cStr b ++ 0 :: z := by
  have hb := List.takeWhile_append_dropWhile (p := fun c : UInt8 => decide (c ≠ 0)) (l := b)
  cases hd : b.dropWhile (fun c => decide (c ≠ 0)) with
  | nil =>
    rw [hd, List.append_nil] at hb
    exact .inl hb
  | cons c z =>
    have hc : c = 0 := by
      have hhead := List.head?_dropWhile_not (fun c : UInt8 => decide (c ≠ 0)) b
      rw [hd] at hhead
      simpa using hhead
    subst hc
    rw [hd] at hb
    exact .inr ⟨z, hb.symm⟩

/-- **Truncation spares the finished requests without a zero byte.** If no token of the stream
    holds a zero byte, no separator comes behind the first zero byte, so cutting the C strings of
    the chunks gives the same tokens. -/
theorem splits_cStr {w r : Bytes} {ts chunks : List Bytes}
    (h : Splits sep (w ++ chunks.flatten) ts r) (hts : ∀ t ∈ ts, (0 : UInt8) ∉ t) :
    ∃ r', Splits sep (w ++ chunks.flatMap cStr) ts r' := by
  induction chunks generalizing w with
  | nil => exact ⟨r, h⟩
  | cons b chunks ih =>
    rw [List.flatMap_cons]
    rw [List.flatten_cons] at h
    rcases cStr_split b with hb | ⟨z, hz⟩
    · rw [hb, ← List.append_assoc]
      exact ih (by rwa [List.append_assoc])
    · -- the zero byte of `b` is the first one: nothing behind it finishes a request
      have hsplit : w ++ (b ++ chunks.flatten) = (w ++ cStr b) ++ 0 :: (z ++ chunks.flatten) := by
        conv_lhs => rw [hz]
        simp
      rw [hsplit] at h
      have hfree : (88 : UInt8) ∉ z ++ chunks.flatten :=
        Splits.free_of_tokens (by decide) h hts
      obtain ⟨ts', r', hcut⟩ := Splits.total sep_ne_nil (w ++ cStr b)
      have hfree' : (88 : UInt8) ∉ (0 : UInt8) :: (z ++ chunks.flatten) := by
        simpa using hfree
      obtain ⟨rfl, -⟩ := h.unique (hcut.append_free hfree')
      have hrest : (88 : UInt8) ∉ chunks.flatMap cStr := fun hmem =>
        hfree (List.mem_append_right _ ((cStr_sublist chunks).mem hmem))
      rw [← List.append_assoc]
      exact ⟨_, hcut.append_free hrest⟩

/-- A call that sees the end of the stream parses nothing and closes the connection. -/
theorem recver_eos {errno : Errno} {frame : Frame} {answers : List RecvResult}
    (hv : verdict answers = some 0) (h : c.step (.recver errno frame answers) = some d) :
    d.closed = true ∧ d.parsed = c.parsed ∧ d.appended = c.appended := by
  have hopen := open_of_step h
  simp only [Conn.step, hopen, Bool.false_eq_true, if_false, Option.map_eq_some_iff] at h
  obtain ⟨r, hr, rfl⟩ := h
  rcases recver_cases hr with ⟨hv', -⟩ | ⟨-, -, hout, htokens, hnext⟩
  · rw [hv] at hv'
    simp at hv'
  · simp [hout, htokens, hnext]

/-- **When no request is lost at the end of the stream.** Let the calls `ops` leave the connection
    open and the next `Recver` see the end of the stream, which closes it. Exactly the finished
    requests of everything the peer has sent have been parsed and answered if and only if that last
    call has received no separator and no finished request holds a zero byte. -/
theorem recver_eos_iff (ops : List ConnOp) (c : Conn)
    (hrun : Run (Step Conn.step) Conn.new ops c) (hopen : c.closed = false)
    (errno : Errno) (frame : Frame) (answers : List RecvResult)
    (hlast : (ConnOp.recver errno frame answers).Returns 0) (d : Conn)
    (hd : c.step (.recver errno frame answers) = some d) (ts : List Bytes) (r : Bytes)
    (hcut : Splits sep (stream (ops ++ [.recver errno frame answers])) ts r) :
    d.closed = true ∧
    ((d.parsed = ts ∧ d.appended = ts.flatMap response) ↔
      (88 : UInt8) ∉ stream [.recver errno frame answers] ∧ ∀ t ∈ ts, (0 : UInt8) ∉ t) := by
  obtain ⟨hclosed, hparsed, happended⟩ := recver_eos (returns_recver.1 hlast) hd
  have hops := returns_of_run hrun hopen
  obtain ⟨ts', hcut', hparsed', happended'⟩ := cuts_run rfl hops hrun
  rw [added_eq_cStr hops] at hcut'
  have hstream : stream (ops ++ [.recver errno frame answers]) =
      stream ops ++ stream [.recver errno frame answers] := by
    simp [stream]
  rw [hstream] at hcut
  simp only [Conn.new, List.nil_append] at hcut' hparsed' happended'
  refine ⟨hclosed, ?_, ?_⟩
  · intro hlossless
    obtain rfl : ts' = ts := by rw [← hparsed', ← hparsed, hlossless.1]
    refine ⟨?_, fun t ht h0 => zero_notMem_cStr _ (hcut'.mem_of_mem ht h0)⟩
    -- there are as many requests as separators, and those of the last call were not parsed
    have hall : ts'.length = (stream ops).count 88 +
        (stream [.recver errno frame answers]).count 88 := by
      rw [← List.count_append]
      exact hcut.length_eq_count
    have hsome : ts'.length ≤ (stream ops).count 88 := by
      rw [hcut'.length_eq_count]
      exact (cStr_sublist _).count_le _
    exact List.count_eq_zero.1 (by omega)
  · intro hok
    obtain ⟨hfree, hzero⟩ := hok
    obtain ⟨ts₁, r₁, hfirst⟩ := Splits.total sep_ne_nil (stream ops)
    obtain ⟨rfl, -⟩ := hcut.unique (hfirst.append_free hfree)
    obtain ⟨r₂, hstrings⟩ := splits_cStr (w := []) hfirst hzero
    obtain ⟨rfl, -⟩ := hcut'.unique hstrings
    exact ⟨hparsed.trans hparsed', happended.trans happended'⟩

/-- A request received, and then the end of the stream in a call of its own: it is answered. -/
theorem recver_eos_iff_later :
    ∃ c d : Conn,
      Run (Step Conn.step) Conn.new
        [.recver .zero ⟨fun _ => 0, []⟩ [.ok [49, 43, 50, 88], .err .eagain]] c ∧
      c.step (.recver .eagain ⟨fun _ => 0, []⟩ [.ok []]) = some d ∧ d.closed = true ∧
      d.parsed = [[49, 43, 50]] ∧ d.appended = [[49, 43, 50]].flatMap response := by
  let c : Conn :=
    { inbuffer := [], outbuffer := [49, 43, 50, 61, 51, 88], closed := false,
      parsed := [[49, 43, 50]], appended := [49, 43, 50, 61, 51, 88], accepted := [] }
  have hrun : Run (Step Conn.step) Conn.new
      [.recver .zero ⟨fun _ => 0, []⟩ [.ok [49, 43, 50, 88], .err .eagain]] c :=
    exec_run (by decide +kernel)
  have hd : c.step (.recver .eagain ⟨fun _ => 0, []⟩ [.ok []]) =
      some { c with closed := true } := by decide +kernel
  have hcut : Splits sep [49, 43, 50, 88] [[49, 43, 50]] [] :=
    .token (p := 3) (by decide) (.rest rfl)
  obtain ⟨hclosed, hiff⟩ := recver_eos_iff _ c hrun rfl .eagain ⟨fun _ => 0, []⟩ [.ok []] rfl _ hd
    [[49, 43, 50]] [] hcut
  exact ⟨c, _, hrun, hd, hclosed, hiff.2 ⟨by decide, by decide⟩⟩

/-- **The last requests are lost.** The same bytes with the end of the stream in the same call: the
    connection is closed and the finished request has been neither parsed nor answered. -/
theorem recver_eos_drops :
    Splits sep (stream [.recver .zero ⟨fun _ => 0, []⟩ [.ok [49, 43, 50, 88], .ok []]])
      [[49, 43, 50]] [] ∧
    response [49, 43, 50] = [49, 43, 50, 61, 51, 88] ∧
    ∃ d, Run (Step Conn.step) Conn.new
        [.recver .zero ⟨fun _ => 0, []⟩ [.ok [49, 43, 50, 88], .ok []]] d ∧
      d.closed = true ∧ ¬ ([49, 43, 50] ∈ d.parsed) ∧ d.outbuffer = [] ∧ d.appended = [] := by
  refine ⟨.token (p := 3) (by decide) (.rest rfl), by decide +kernel, ?_⟩
  exact exec_exists _ _ _ (by decide +kernel)

end EndOfStream

end SystemCallLearn.Reactor
