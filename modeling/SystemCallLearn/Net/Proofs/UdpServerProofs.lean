import SystemCallLearn.Net.UdpServer

/-!
# What the UDP server prints for a datagram

A payload is followed in the buffer by what was there before it: by the tail of the last datagram
that was longer, or by the uninitialised bytes. So it is printed as it is only if the byte behind it
happens to be zero, and no datagram ever writes a zero byte.
-/

namespace SystemCallLearn.Net.UdpServer

open SystemCallLearn.Posix

variable {π : Type}

/-- A datagram of at most 1023 bytes without a zero byte. -/
def Plain (payload : Bytes) : Prop := payload.length ≤ num - 1 ∧ 0 ∉ payload

instance (payload : Bytes) : Decidable (Plain payload) := inferInstanceAs (Decidable (_ ∧ _))

/-- The payload received, if any. -/
def RecvfromResult.payload : RecvfromResult π → Option Bytes
  | .ok payload _ => some payload
  | .err _ => none

/-- The datagrams received. -/
def payloads (answers : List (RecvfromResult π)) : List Bytes :=
  answers.filterMap RecvfromResult.payload

/-- The buffer after these calls of `recvfrom`. -/
def Buffer.after (b : Buffer) (answers : List (RecvfromResult π)) : Buffer :=
  answers.foldl Buffer.recvfrom b

/-- The text printed in iteration `k`. -/
def said (b : Buffer) (answers : List (RecvfromResult π)) (k : Nat) : Option Bytes :=
  (serve b answers)[k]?.bind Round.clientSay

/-! ## One datagram -/

section Datagram

variable {b : Buffer} {payload : Bytes} {i : Nat}

theorem store_bytes (h : Plain payload) :
    (b.store payload).bytes = payload ++ b.bytes.drop payload.length := by
  have hreceived : received payload = payload := List.take_of_length_le h.1
  have hstore : (b.store payload).bytes =
    received payload ++ b.bytes.drop (received payload).length := rfl
  rw [hstore, hreceived]

/-- A zero byte behind the payload was there before; one inside it was overwritten. -/
theorem store_zero (h : Plain payload) :
    (b.store payload).bytes[i]? = some 0 ↔ payload.length ≤ i ∧ b.bytes[i]? = some 0 := by
  rw [store_bytes h]
  by_cases hi : i < payload.length
  · rw [List.getElem?_append_left hi]
    constructor
    · intro hz
      exact absurd (List.mem_of_getElem? hz) h.2
    · rintro ⟨hle, -⟩
      exact absurd hi (Nat.not_lt.2 hle)
  · have hle : payload.length ≤ i := Nat.le_of_not_lt hi
    rw [List.getElem?_append_right hle, List.getElem?_drop, Nat.add_sub_cancel' hle]
    exact ⟨fun hz => ⟨hle, hz⟩, And.right⟩

/-- A C string begins with the zero-free bytes in front. -/
theorem cStr_append {r : Bytes} (h : 0 ∉ payload) : cStr (payload ++ r) = payload ++ cStr r := by
  unfold cStr
  rw [List.takeWhile_append_of_pos]
  intro c hc
  have hne : c ≠ 0 := by
    rintro rfl
    exact h hc
  simpa using hne

/-- The payload is printed as it is if and only if a zero byte lies behind it. -/
theorem text_store (h : Plain payload) :
    (b.store payload).text = some payload ↔ b.bytes[payload.length]? = some 0 := by
  have hlt : payload.length < b.bytes.length := by
    have hlen := h.1
    rw [b.size]
    unfold num at *
    omega
  have hdrop := List.drop_eq_getElem_cons hlt
  have hcStr : cStr (b.store payload).bytes = payload ++ cStr (b.bytes.drop payload.length) := by
    rw [store_bytes h, cStr_append h.2]
  rw [List.getElem?_eq_getElem hlt, Option.some.injEq]
  unfold Buffer.text
  constructor
  · intro htext
    split_ifs at htext with hzero
    rw [Option.some.injEq, hcStr] at htext
    by_contra hne
    rw [hdrop, cStr, List.takeWhile_cons_of_pos (by simpa using hne)] at htext
    simp at htext
  · intro hz
    have hzero : (0 : UInt8) ∈ (b.store payload).bytes := by
      rw [store_bytes h, hdrop, hz]
      simp
    rw [if_pos hzero, hcStr, hdrop, hz]
    simp [cStr]

end Datagram

/-! ## A sequence of datagrams -/

section Datagrams

variable {b : Buffer} {payload : Bytes} {i k : Nat} {a : RecvfromResult π}
  {answers : List (RecvfromResult π)}

/-- **The step lemma.** A byte is zero after a call of `recvfrom` if it was before and no payload
    was stored over it. -/
theorem recvfrom_zero (h : ∀ p ∈ payloads [a], Plain p) : (b.recvfrom a).bytes[i]? = some 0 ↔
    b.bytes[i]? = some 0 ∧ ∀ p ∈ payloads [a], p.length ≤ i := by
  cases a with
  | ok payload peer =>
    have hplain : Plain payload := h payload List.mem_cons_self
    have hone : payloads [RecvfromResult.ok payload peer] = [payload] := rfl
    rw [hone, List.forall_mem_singleton, and_comm]
    exact store_zero hplain
  | err e =>
    have hnone : payloads [(RecvfromResult.err e : RecvfromResult π)] = [] := rfl
    simp [hnone, Buffer.recvfrom]

theorem payloads_cons : payloads (a :: answers) = payloads [a] ++ payloads answers := by
  rw [← List.singleton_append]
  exact List.filterMap_append

/-- **The run lemma.** The zero bytes left are those that no datagram was long enough to reach. -/
theorem after_zero (h : ∀ p ∈ payloads answers, Plain p) : (b.after answers).bytes[i]? = some 0 ↔
    b.bytes[i]? = some 0 ∧ ∀ p ∈ payloads answers, p.length ≤ i := by
  induction answers generalizing b with
  | nil => simp [Buffer.after, payloads]
  | cons a rest ih =>
    rw [payloads_cons] at h ⊢
    have hrest := ih (b := b.recvfrom a) fun p hp => h p (List.mem_append_right _ hp)
    have hfirst := recvfrom_zero (b := b) (i := i) fun p hp => h p (List.mem_append_left _ hp)
    have hafter : b.after (a :: rest) = (b.recvfrom a).after rest := rfl
    rw [hafter, hrest, hfirst, List.forall_mem_append, and_assoc]

/-- Iteration `k` prints what the calls of `recvfrom` so far have left. -/
theorem said_eq (h : answers[k]? = some a) :
    said b answers k = ((b.after (answers.take k)).recvfrom a).text := by
  induction answers generalizing b k with
  | nil => cases h
  | cons a' rest ih =>
    cases k with
    | zero =>
      obtain rfl : a' = a := by simpa using h
      rfl
    | succ k =>
      have hk : rest[k]? = some a := by simpa using h
      exact ih hk

theorem payloads_take (h : ∀ p ∈ payloads answers, Plain p) (k : Nat) :
    ∀ p ∈ payloads (answers.take k), Plain p := by
  intro p hp
  obtain ⟨a, ha, hpa⟩ := List.mem_filterMap.1 hp
  exact h p (List.mem_filterMap.2 ⟨a, List.mem_of_mem_take ha, hpa⟩)

theorem payload_mem {peer : π} (h : answers[k]? = some (.ok payload peer)) :
    payload ∈ payloads answers :=
  List.mem_filterMap.2 ⟨_, List.mem_of_getElem? h, rfl⟩

/-- When the payload arrives at iteration `k`, the byte behind it is one that was zero at the start
    and that no earlier datagram was long enough to reach. -/
def Terminated (b : Buffer) (answers : List (RecvfromResult π)) (k : Nat) (payload : Bytes) :
    Prop :=
  b.bytes[payload.length]? = some 0 ∧ ∀ p ∈ payloads (answers.take k), p.length ≤ payload.length

instance (b : Buffer) (answers : List (RecvfromResult π)) (k : Nat) (payload : Bytes) :
    Decidable (Terminated b answers k payload) := inferInstanceAs (Decidable (_ ∧ _))

/-- A datagram is shown by itself if and only if it finds a terminator behind it; of two such
    datagrams with the same payload, in whatever histories, the same is printed. -/
theorem said_payload_iff (b : Buffer) (answers : List (RecvfromResult π))
    (hplain : ∀ p ∈ payloads answers, Plain p) (k : Nat) (payload : Bytes) (peer : π)
    (hk : answers[k]? = some (.ok payload peer)) :
    (said b answers k = some payload ↔ Terminated b answers k payload) ∧
      ∀ (b' : Buffer) (answers' : List (RecvfromResult π)) (k' : Nat) (peer' : π),
        (∀ p ∈ payloads answers', Plain p) → answers'[k']? = some (.ok payload peer') →
        Terminated b answers k payload → Terminated b' answers' k' payload →
        said b answers k = said b' answers' k' := by
  have hiff : ∀ (b : Buffer) (answers : List (RecvfromResult π)) (k : Nat) (peer : π),
      (∀ p ∈ payloads answers, Plain p) → answers[k]? = some (.ok payload peer) →
      (said b answers k = some payload ↔ Terminated b answers k payload) := by
    intro b answers k peer hplain hk
    rw [said_eq hk]
    show ((b.after (answers.take k)).store payload).text = some payload ↔ _
    rw [text_store (hplain _ (payload_mem hk)), after_zero (payloads_take hplain k)]
    rfl
  refine ⟨hiff b answers k peer hplain hk, ?_⟩
  intro b' answers' k' peer' hplain' hk' ht ht'
  rw [(hiff b answers k peer hplain hk).2 ht, (hiff b' answers' k' peer' hplain' hk').2 ht']

end Datagrams

/-- A buffer that happens to be zero at first. -/
def zeroed : Buffer where
  bytes := List.replicate num 0
  size := List.length_replicate

/-- `hi` from client 2. -/
def greeting : List (RecvfromResult Nat) := [.ok [104, 105] 2]

/-- `hi` from client 2, a failure, then the longer `hello` from client 1. -/
def longer : List (RecvfromResult Nat) :=
  [.ok [104, 105] 2, .err .eintr, .ok [104, 101, 108, 108, 111] 1]

/-- The longer datagram is shown by itself, as it is when it comes first. -/
theorem said_payload_iff_longer : Terminated zeroed longer 2 [104, 101, 108, 108, 111] ∧
    said zeroed longer 2 = some [104, 101, 108, 108, 111] ∧
    said zeroed longer 2 = said zeroed (longer.drop 2) 0 := by
  have hplain : ∀ p ∈ payloads longer, Plain p := by decide +kernel
  have hplain' : ∀ p ∈ payloads (longer.drop 2), Plain p := by decide +kernel
  have hterminated : Terminated zeroed longer 2 [104, 101, 108, 108, 111] := by decide +kernel
  have hterminated' : Terminated zeroed (longer.drop 2) 0 [104, 101, 108, 108, 111] := by
    decide +kernel
  obtain ⟨hiff, hsame⟩ := said_payload_iff zeroed longer hplain 2 _ 1 rfl
  exact ⟨hterminated, hiff.2 hterminated,
    hsame zeroed _ 0 1 hplain' rfl hterminated hterminated'⟩

/-- `hello` from client 1, then `hi` from client 2, which is printed as `hillo`. -/
def mixed : List (RecvfromResult Nat) := [.ok [104, 101, 108, 108, 111] 1, .ok [104, 105] 2]

theorem said_mixed : (∀ p ∈ payloads mixed, Plain p) ∧ mixed[1]? = some (.ok [104, 105] 2) ∧
    said zeroed mixed 1 = some [104, 105, 108, 108, 111] ∧
    said zeroed greeting 0 = some [104, 105] := by
  decide +kernel

end SystemCallLearn.Net.UdpServer
