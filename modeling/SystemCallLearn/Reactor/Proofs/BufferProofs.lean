import SystemCallLearn.Reactor.Proofs.RecverProofs

/-!
# The array of `RecverCore`

Every chunk goes through `char buffer[ONCE_SIZE]` and is appended as a C string. The terminator is
written behind the chunk, so a chunk that fills the array puts it outside; and what is appended ends
at the first zero byte, so a chunk that contains one is cut there.
-/

namespace SystemCallLearn.Reactor

open SystemCallLearn.Posix SystemCallLearn.Lib

/-! ## What is written and read -/

/-- The offsets that `inbuffer += buffer` reads: those up to the first zero byte. -/
def Frame.Reads (f : Frame) (i : Nat) : Prop := ∀ j < i, f.mem j ≠ 0

/-- The array at each `inbuffer += buffer` of a call, with the offsets written in that iteration. -/
def appends (frame : Frame) : List RecvResult → List Frame
  | [] => []
  | .ok bytes :: rest =>
    if 0 < bytes.length then
      let frame := ({ frame with written := [] }.fill bytes).put bytes.length 0
      frame :: appends frame rest
    else []
  | .err e :: rest => if e = .eintr then appends frame rest else []

/-- What `recv(sock, buffer, ONCE_SIZE, 0)` may answer. -/
def RecvAnswer : RecvResult → Prop
  | .ok bytes => bytes.length ≤ onceSize
  | .err _ => True

/-- The call writes only offsets of the array, and `inbuffer += buffer` reads only bytes of it that
    were written in the same iteration. -/
structure StaysInside (errno : Errno) (frame : Frame) (inbuffer : Bytes)
    (answers : List RecvResult) : Prop where
  written : ∀ r, recverCore errno frame inbuffer answers = some r → ∀ i ∈ r.frame.written,
    i < onceSize
  appended : ∀ f ∈ appends frame answers,
    (∀ i ∈ f.written, i < onceSize) ∧ ∀ i, f.Reads i → i ∈ f.written

section Frames

variable {errno : Errno} {frame frame' : Frame} {inbuffer : Bytes} {answers : List RecvResult}
  {r : RecverEnd}

/-- What an iteration appends depends on the contents of the array only. -/
theorem appends_congr (h : frame.mem = frame'.mem) : appends frame answers =
    appends frame' answers := by
  induction answers with
  | nil => rfl
  | cons a rest ih =>
    cases a with
    | ok bytes =>
      have hsame : ({ frame with written := [] } : Frame) = { frame' with written := [] } := by
        rw [h]
      simp only [appends]
      rw [hsame]
    | err e =>
      simp only [appends, ih]

/-- An iteration writes the chunk and the terminator behind it. -/
theorem appends_written (frame : Frame) (answers : List RecvResult) :
    (appends frame answers).map Frame.written =
      (received answers).map fun bytes => List.range bytes.length ++ [bytes.length] := by
  induction answers generalizing frame with
  | nil => rfl
  | cons a rest ih =>
    cases a with
    | ok bytes =>
      unfold appends received
      by_cases hpos : 0 < bytes.length
      · rw [if_pos hpos, if_pos hpos, List.map_cons, List.map_cons, ih]
        rfl
      · rw [if_neg hpos, if_neg hpos]
        rfl
    | err e =>
      unfold appends received
      by_cases hintr : e = .eintr
      · rw [if_pos hintr, if_pos hintr]
        exact ih frame
      · rw [if_neg hintr, if_neg hintr]
        rfl

/-- The array of an iteration: a chunk received, and the terminator. -/
theorem mem_appends {f : Frame} (hf : f ∈ appends frame answers) :
    ∃ g : Frame, ∃ bytes ∈ received answers,
      f = ({ g with written := [] }.fill bytes).put bytes.length 0 := by
  induction answers generalizing frame with
  | nil => cases hf
  | cons a rest ih =>
    cases a with
    | ok bytes =>
      unfold appends at hf
      unfold received
      split_ifs at hf ⊢ with hpos
      · rcases List.mem_cons.1 hf with rfl | hf
        · exact ⟨frame, bytes, List.mem_cons_self, rfl⟩
        · obtain ⟨g, bytes', hbytes', rfl⟩ := ih hf
          exact ⟨g, bytes', List.mem_cons_of_mem bytes hbytes', rfl⟩
      · cases hf
    | err e =>
      unfold appends at hf
      unfold received
      split_ifs at hf ⊢ with hintr
      · exact ih hf
      · cases hf

theorem mem_written_terminated {g : Frame} {bytes : Bytes} {i : Nat} :
    i ∈ (({ g with written := [] } : Frame).fill bytes |>.put bytes.length 0).written ↔
      i ≤ bytes.length := by
  simp only [Frame.put, Frame.fill, List.nil_append, List.mem_append, List.mem_range,
    List.mem_singleton]
  omega

/-- The terminator ends what is read, so nothing is read that the iteration has not written. -/
theorem mem_written_of_reads {f : Frame} {i : Nat} (hf : f ∈ appends frame answers)
    (hi : f.Reads i) : i ∈ f.written := by
  obtain ⟨g, bytes, -, rfl⟩ := mem_appends hf
  rw [mem_written_terminated]
  by_contra hlt
  apply hi bytes.length (by omega)
  simp [Frame.put]

/-- **The writes of a call are those of its iterations.** -/
theorem recverCore_written (h : recverCore errno frame inbuffer answers = some r) :
    r.frame.written = frame.written ++ (appends frame answers).flatMap Frame.written := by
  induction answers generalizing errno frame inbuffer with
  | nil => cases h
  | cons a rest ih =>
    cases a with
    | ok bytes =>
      unfold recverCore at h
      unfold appends
      split_ifs at h with hpos
      · rw [if_pos hpos, ih h, List.flatMap_cons]
        simp only [Frame.put, Frame.fill, List.nil_append, List.append_assoc]
        rw [appends_congr]
        rfl
      · rw [if_neg hpos]
        obtain rfl := Option.some.inj h
        simp
    | err e =>
      unfold recverCore at h
      unfold appends
      split_ifs at h with hintr hblock
      · rw [if_pos hintr]
        exact ih h
      · rw [if_neg hintr]
        obtain rfl := Option.some.inj h
        simp
      · rw [if_neg hintr]
        obtain rfl := Option.some.inj h
        simp

theorem mem_received {bytes : Bytes} (h : bytes ∈ received answers) : .ok bytes ∈ answers := by
  induction answers with
  | nil => cases h
  | cons a rest ih =>
    cases a with
    | ok bytes' =>
      unfold received at h
      split_ifs at h with hpos
      · rcases List.mem_cons.1 h with rfl | h
        · exact List.mem_cons_self
        · exact List.mem_cons_of_mem _ (ih h)
      · cases h
    | err e =>
      unfold received at h
      split_ifs at h with hintr
      · exact List.mem_cons_of_mem _ (ih h)
      · cases h

/-- The offsets that an iteration writes. -/
theorem mem_appends_written {f : Frame} {i : Nat} (hf : f ∈ appends frame answers)
    (hi : i ∈ f.written) : ∃ bytes ∈ received answers, i ≤ bytes.length := by
  obtain ⟨g, bytes, hbytes, rfl⟩ := mem_appends hf
  exact ⟨bytes, hbytes, mem_written_terminated.1 hi⟩

/-- The offset of the terminator is written. -/
theorem exists_appends_terminator (frame : Frame) {bytes : Bytes} (h : bytes ∈ received answers) :
    ∃ f ∈ appends frame answers, bytes.length ∈ f.written := by
  have hmem : List.range bytes.length ++ [bytes.length] ∈
      (appends frame answers).map Frame.written := by
    rw [appends_written]
    exact List.mem_map.2 ⟨bytes, h, rfl⟩
  obtain ⟨f, hf, hwritten⟩ := List.mem_map.1 hmem
  exact ⟨f, hf, by simp [hwritten]⟩

end Frames

/-- **`RecverCore` stays inside its array exactly when no chunk fills it.** For all answers that
    `recv` may give, in any order and number, every offset written lies in the array and every byte
    appended was written in its iteration, if and only if no `recv` returns `ONCE_SIZE` bytes. -/
theorem recverCore_inside_iff (errno : Errno) (frame : Frame) (inbuffer : Bytes)
    (answers : List RecvResult) (hv : ∀ a ∈ answers, RecvAnswer a) (hframe : frame.written = []) :
    StaysInside errno frame inbuffer answers ↔
      ∀ bytes ∈ received answers, bytes.length ≠ onceSize := by
  constructor
  · intro h bytes hbytes heq
    obtain ⟨f, hf, hlast⟩ := exists_appends_terminator frame hbytes
    have hlt := (h.appended f hf).1 _ hlast
    omega
  · intro h
    have hlt : ∀ bytes ∈ received answers, bytes.length < onceSize := by
      intro bytes hbytes
      have hle : bytes.length ≤ onceSize := hv _ (mem_received hbytes)
      have hne := h bytes hbytes
      omega
    have hwritten : ∀ f ∈ appends frame answers, ∀ i ∈ f.written, i < onceSize := by
      intro f hf i hi
      obtain ⟨bytes, hbytes, hle⟩ := mem_appends_written hf hi
      have hbound := hlt bytes hbytes
      omega
    refine ⟨?_, fun f hf => ⟨hwritten f hf, fun i hi => mem_written_of_reads hf hi⟩⟩
    intro r hr i hi
    rw [recverCore_written hr, hframe, List.nil_append, List.mem_flatMap] at hi
    obtain ⟨f, hf, hi⟩ := hi
    exact hwritten f hf i hi

/-- A chunk of 127 bytes, an interrupt and a chunk of one byte. -/
theorem recverCore_inside_iff_almost_full :
    StaysInside .zero ⟨fun _ => 255, []⟩ []
      [.ok (List.replicate 127 65), .err .eintr, .ok [66], .err .eagain] := by
  refine (recverCore_inside_iff _ _ _ _ ?_ rfl).2 ?_
  · intro a ha
    simp only [List.mem_cons, List.not_mem_nil, or_false] at ha
    rcases ha with rfl | rfl | rfl | rfl
    · simp [RecvAnswer, onceSize]
    · trivial
    · simp [RecvAnswer, onceSize]
    · trivial
  · intro bytes hbytes
    simp only [received, List.length_replicate, List.length_cons, List.length_nil, if_true,
      Nat.succ_pos, reduceCtorEq, if_false, List.mem_cons, List.not_mem_nil, or_false] at hbytes
    rcases hbytes with rfl | rfl
    · simp [onceSize]
    · simp [onceSize]

/-- **The terminator is written behind the array.** `recv` fills it with 128 bytes, and the zero
    byte goes to offset 128. -/
theorem recverCore_writes_behind :
    RecvAnswer (.ok (List.replicate 128 65)) ∧
    (∃ r, recverCore .zero ⟨fun _ => 0, []⟩ [] [.ok (List.replicate 128 65), .err .eagain] =
        some r ∧ 128 ∈ r.frame.written) ∧
    ¬ StaysInside .zero ⟨fun _ => 0, []⟩ [] [.ok (List.replicate 128 65), .err .eagain] := by
  have hwrites : ∃ r, recverCore .zero ⟨fun _ => 0, []⟩ []
      [.ok (List.replicate 128 65), .err .eagain] = some r ∧ 128 ∈ r.frame.written := by
    have hverdict : verdict [.ok (List.replicate 128 65), .err .eagain] = some 1 := by
      simp [verdict]
    obtain ⟨r, hr, -⟩ := recverCore_returns .zero ⟨fun _ => 0, []⟩ [] hverdict
    have hfull : List.replicate 128 65 ∈
        received [.ok (List.replicate 128 65), .err .eagain] := by simp [received]
    obtain ⟨f, hf, hlast⟩ := exists_appends_terminator ⟨fun _ => 0, []⟩ hfull
    rw [List.length_replicate] at hlast
    refine ⟨r, hr, ?_⟩
    rw [recverCore_written hr]
    exact List.mem_append_right _ (List.mem_flatMap.2 ⟨f, hf, hlast⟩)
  refine ⟨by simp [RecvAnswer, onceSize], hwrites, ?_⟩
  intro h
  obtain ⟨r, hr, hmem⟩ := hwrites
  exact absurd (h.written r hr 128 hmem) (by decide)

/-! ## What is appended -/

/-- The bytes that `recv` stored. -/
def chunk : RecvResult → Bytes
  | .ok bytes => bytes
  | .err _ => []

/-- The answers after which the loop goes on, with room for the terminator: a chunk shorter than the
    array, or an interrupt. -/
def Continues : RecvResult → Prop
  | .ok bytes => 0 < bytes.length ∧ bytes.length < onceSize
  | .err e => e = .eintr

/-- Pieces that are no longer than those of another list and make up the same bytes are the same. -/
theorem flatMap_eq_iff {β γ : Type*} {f g : β → List γ} (hle : ∀ b, (f b).length ≤ (g b).length)
    (l : List β) : l.flatMap f = l.flatMap g ↔ ∀ b ∈ l, f b = g b := by
  have hlen : ∀ l : List β, (l.flatMap f).length ≤ (l.flatMap g).length := by
    intro l
    induction l with
    | nil => exact Nat.le_refl _
    | cons b l ih =>
      simp only [List.flatMap_cons, List.length_append]
      exact Nat.add_le_add (hle b) ih
  induction l with
  | nil => simp
  | cons b l ih =>
    rw [List.flatMap_cons, List.flatMap_cons, List.forall_mem_cons]
    constructor
    · intro h
      have htotal := congrArg List.length h
      simp only [List.length_append] at htotal
      have hb := hle b
      have hl := hlen l
      obtain ⟨hhead, htail⟩ := List.append_inj h (by omega)
      exact ⟨hhead, ih.1 htail⟩
    · rintro ⟨hhead, htail⟩
      rw [hhead, ih.2 htail]

section Lossless

variable {steps : List RecvResult} {last : RecvResult} {v : Int}

/-- Before the answer that ends the loop every chunk is received. -/
theorem verdict_piece (rest : List RecvResult) (hsteps : ∀ a ∈ steps, Continues a)
    (hlast : verdict [last] = some v) :
    verdict (steps ++ last :: rest) = some v ∧
      piece (steps ++ last :: rest) = steps.flatMap fun a => cStr (chunk a) := by
  induction steps with
  | nil =>
    cases last with
    | ok bytes =>
      unfold verdict at hlast
      split_ifs at hlast with hpos
      · cases hlast
      · simp [verdict, piece, received, hpos, hlast]
    | err e =>
      unfold verdict at hlast
      by_cases hintr : e = .eintr
      · rw [if_pos hintr] at hlast
        cases hlast
      · simp only [if_neg hintr] at hlast
        simp only [verdict, piece, received, hintr, List.nil_append, if_false, hlast]
        simp
  | cons a steps ih =>
    obtain ⟨hv, hp⟩ := ih fun b hb => hsteps b (List.mem_cons_of_mem a hb)
    have ha := hsteps a List.mem_cons_self
    cases a with
    | ok bytes =>
      have hpos : 0 < bytes.length := ha.1
      simp only [List.cons_append, verdict, piece, received, if_pos hpos, List.flatMap_cons]
      exact ⟨hv, congrArg (cStr bytes ++ ·) hp⟩
    | err e =>
      have hintr : e = .eintr := ha
      simp only [List.cons_append, verdict, piece, received, if_pos hintr, List.flatMap_cons]
      exact ⟨hv, hp⟩

end Lossless

/-- **`RecverCore` is lossless exactly when no chunk contains a zero byte.** For every initial
    buffer, all chunks shorter than the array with any number of interrupts between them, and every
    answer that ends the sequence, the call returns what that answer stands for and has appended all
    bytes received and nothing else, if and only if none of these bytes is zero. -/
theorem recverCore_lossless_iff (errno : Errno) (frame : Frame) (inbuffer : Bytes)
    (steps rest : List RecvResult) (last : RecvResult) (v : Int)
    (hsteps : ∀ a ∈ steps, Continues a) (hlast : verdict [last] = some v) :
    (∃ r, recverCore errno frame inbuffer (steps ++ last :: rest) = some r ∧ r.ret = v ∧
        r.inbuffer = inbuffer ++ steps.flatMap chunk) ↔
      ∀ a ∈ steps, 0 ∉ chunk a := by
  obtain ⟨hverdict, hpiece⟩ := verdict_piece rest hsteps hlast
  obtain ⟨c, hc, hret, hin⟩ := recverCore_returns errno frame inbuffer hverdict
  rw [hpiece] at hin
  have hcut : ∀ a, (cStr (chunk a)).length ≤ (chunk a).length := fun a =>
    (List.takeWhile_prefix _).length_le
  have hzero : (∀ a ∈ steps, 0 ∉ chunk a) ↔ ∀ a ∈ steps, cStr (chunk a) = chunk a :=
    forall₂_congr fun _ _ => cStr_eq_self.symm
  rw [hzero, ← flatMap_eq_iff hcut]
  constructor
  · rintro ⟨r, hr, -, hall⟩
    obtain rfl : c = r := Option.some.inj (hc.symm.trans hr)
    rw [hin] at hall
    exact List.append_cancel_left hall
  · intro hall
    exact ⟨c, hc, hret, by rw [hin, hall]⟩

/-- Two chunks with an interrupt between them, and then the end of the stream. -/
theorem recverCore_lossless_iff_two :
    ∃ r, recverCore .zero ⟨fun _ => 7, []⟩ [57]
        ([.ok [49, 43], .err .eintr, .ok [50, 88]] ++ [.ok []]) = some r ∧ r.ret = 0 ∧
      r.inbuffer = [57, 49, 43, 50, 88] := by
  refine (recverCore_lossless_iff .zero ⟨fun _ => 7, []⟩ [57] [.ok [49, 43], .err .eintr,
    .ok [50, 88]] [] (.ok []) 0 ?_ rfl).2 ?_
  · intro a ha
    simp only [List.mem_cons, List.not_mem_nil, or_false] at ha
    rcases ha with rfl | rfl | rfl
    · exact ⟨by decide, by decide⟩
    · rfl
    · exact ⟨by decide, by decide⟩
  · intro a ha
    simp only [List.mem_cons, List.not_mem_nil, or_false] at ha
    rcases ha with rfl | rfl | rfl <;> decide

/-- **A zero byte cuts its chunk.** Of the three bytes received only the one before the zero byte is
    appended. -/
theorem recverCore_loses_behind_zero :
    Continues (.ok [49, 0, 50]) ∧
    (∃ r, recverCore .zero ⟨fun _ => 0, []⟩ [] [.ok [49, 0, 50], .err .eagain] = some r ∧
      r.ret = 1 ∧ r.inbuffer = [49]) ∧
    ¬ ∃ r, recverCore .zero ⟨fun _ => 0, []⟩ [] [.ok [49, 0, 50], .err .eagain] = some r ∧
      r.ret = 1 ∧ r.inbuffer = [49, 0, 50] := by
  have hverdict : verdict [.ok [49, 0, 50], .err .eagain] = some 1 := rfl
  obtain ⟨r, hr, hret, hin⟩ := recverCore_returns .zero ⟨fun _ => 0, []⟩ [] hverdict
  refine ⟨⟨by decide, by decide⟩, ⟨r, hr, hret, hin⟩, ?_⟩
  rintro ⟨r', hr', -, hin'⟩
  obtain rfl : r = r' := Option.some.inj (hr.symm.trans hr')
  rw [hin] at hin'
  exact absurd hin' (by decide)

end SystemCallLearn.Reactor
