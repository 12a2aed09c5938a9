import SystemCallLearn.Net.Udp
import SystemCallLearn.Net.Proofs.UdpServerProofs

/-!
# One datagram at a time

A client sends its next message only after an answer, so all that the system holds of it is one
datagram: its message, the answer the server is about to send, or the reply. The life of a client is
a circle through these phases, which ends for good when the datagram is lost, since nobody sends
anything again.
-/

namespace SystemCallLearn.Net.Udp

open SystemCallLearn.Posix
open SystemCallLearn.Lib
open SystemCallLearn.Net.UdpServer

variable {ι : Type} [DecidableEq ι]

/-! ## What a step does -/

/-- The effect of each action, under the condition that it can happen. -/
inductive Moves (s : Udp ι) : Act ι → Udp ι → Prop where
  | send {j message sent c} (hc : (s.client j).sendto message = some c) :
      Moves s (.send j message sent) { s.withClient j c with
        requests := s.requests ++ (if sent = true then [(j, message)] else []) }
  | receive {j payload replies c} (ht : taken s.replies (j, payload) = some replies)
      (hc : (s.client j).recvfrom (.ok payload () : RecvfromResult Unit) = some c) :
      Moves s (.receive j payload) { s.withClient j c with replies := replies }
  | receiveFails {j e c} (hc : (s.client j).recvfrom (.err e : RecvfromResult Unit) = some c) :
      Moves s (.receiveFails j e) (s.withClient j c)
  | hear {j payload requests t} (ht : taken s.requests (j, payload) = some requests)
      (hs : s.server.recvfrom (.ok payload j) = some t) :
      Moves s (.hear j payload) { s with server := t, requests := requests }
  | hearFails {e t} (hs : s.server.recvfrom (.err e) = some t) :
      Moves s (.hearFails e) { s with server := t }
  | reply {peer target} (hp : s.server.point = .sendto peer)
      (htarget : peer = none ∨ target = none ∨ target = peer) :
      Moves s (.reply target) { s with
        server := { s.server with point := .recvfrom },
        replies := s.replies ++ target.toList.map fun i => (i, helloClient) }
  | loseRequest {j payload requests} (ht : taken s.requests (j, payload) = some requests) :
      Moves s (.loseRequest j payload) { s with requests := requests }
  | loseReply {j payload replies} (ht : taken s.replies (j, payload) = some replies) :
      Moves s (.loseReply j payload) { s with replies := replies }
  | copyRequest {j payload} (hmem : (j, payload) ∈ s.requests) :
      Moves s (.copyRequest j payload) { s with requests := s.requests ++ [(j, payload)] }
  | copyReply {j payload} (hmem : (j, payload) ∈ s.replies) :
      Moves s (.copyReply j payload) { s with replies := s.replies ++ [(j, payload)] }

theorem step_moves {s s' : Udp ι} {a : Act ι} (h : Step step s a s') : Moves s a s' := by
  unfold Step step at h
  cases a with
  | send j message sent =>
    obtain ⟨c, hc, rfl⟩ := Option.map_eq_some_iff.1 h
    exact .send hc
  | receive j payload =>
    simp only [receive, Option.bind_eq_some_iff, Option.map_eq_some_iff] at h
    obtain ⟨replies, ht, c, hc, rfl⟩ := h
    exact .receive ht hc
  | receiveFails j e =>
    obtain ⟨c, hc, rfl⟩ := Option.map_eq_some_iff.1 h
    exact .receiveFails hc
  | hear j payload =>
    simp only [hear, Option.bind_eq_some_iff, Option.map_eq_some_iff] at h
    obtain ⟨requests, ht, t, hs, rfl⟩ := h
    exact .hear ht hs
  | hearFails e =>
    obtain ⟨t, hs, rfl⟩ := Option.map_eq_some_iff.1 h
    exact .hearFails hs
  | reply target =>
    simp only [reply] at h
    split at h
    · cases h
    · split_ifs at h with htarget
      obtain rfl := Option.some.inj h
      exact .reply ‹_› htarget
  | loseRequest j payload =>
    obtain ⟨requests, ht, rfl⟩ := Option.map_eq_some_iff.1 h
    exact .loseRequest ht
  | loseReply j payload =>
    obtain ⟨replies, ht, rfl⟩ := Option.map_eq_some_iff.1 h
    exact .loseReply ht
  | copyRequest j payload =>
    simp only at h
    split_ifs at h with hmem
    obtain rfl := Option.some.inj h
    exact .copyRequest hmem
  | copyReply j payload =>
    simp only at h
    split_ifs at h with hmem
    obtain rfl := Option.some.inj h
    exact .copyReply hmem

/-- A client that sends was at the prompt. -/
theorem sendto_moves {c c' : UdpClient} {message : Bytes} (h : c.sendto message = some c') :
    c.point = .prompt ∧
      c' = { c with point := .recvfrom, messages := c.messages ++ [message] } := by
  unfold UdpClient.sendto at h
  split at h
  · exact ⟨‹_›, (Option.some.inj h).symm⟩
  · cases h

/-- A client prints its buffer when `recvfrom` has answered. -/
theorem recvfrom_moves {c c' : UdpClient} {answer : RecvfromResult Unit}
    (h : c.recvfrom answer = some c') : c.point = .recvfrom ∧
      c' = { c with
        point := .prompt, buffer := c.buffer.recvfrom answer,
        serverSay := c.serverSay ++ [(c.buffer.recvfrom answer).text] } := by
  unfold UdpClient.recvfrom at h
  split at h
  · cases h
  · exact ⟨‹_›, (Option.some.inj h).symm⟩

omit [DecidableEq ι] in
theorem server_moves {t t' : Server ι} {answer : RecvfromResult ι}
    (h : t.recvfrom answer = some t') : t.point = .recvfrom ∧
      t' = { t with
        point := .sendto answer.peer, buffer := t.buffer.recvfrom answer,
        answers := t.answers ++ [answer],
        clientSay := t.clientSay ++ [(t.buffer.recvfrom answer).text] } := by
  unfold Server.recvfrom at h
  split at h
  · cases h
  · exact ⟨‹_›, (Option.some.inj h).symm⟩

/-! ## The life of a client -/

/-- Where the datagram of a client is; `lost` says which message the server has never heard. -/
inductive Phase where
  | ready
  | asked (message : Bytes)
  | heard
  | told
  | lost (unheard : Option Bytes)

namespace Phase

def point : Phase → UdpClient.Point
  | ready => .prompt
  | asked _ | heard | told | lost _ => .recvfrom

def requests : Phase → List Bytes
  | asked message => [message]
  | ready | heard | told | lost _ => []

def served : Phase → Bool
  | heard => true
  | ready | asked _ | told | lost _ => false

def replies : Phase → List Bytes
  | told => [helloClient]
  | ready | asked _ | heard | lost _ => []

/-- The messages sent that the server has not heard. -/
def unheard : Phase → List Bytes
  | asked message => [message]
  | lost message => message.toList
  | ready | heard | told => []

/-- The answers that are due. -/
def due : Phase → Nat
  | ready => 0
  | asked _ | heard | told | lost _ => 1

/-- The circle, and the ways to lose the datagram. -/
inductive Next : Phase → Phase → Prop where
  | ask (message : Bytes) : Next ready (asked message)
  | hear (message : Bytes) : Next (asked message) heard
  | tell : Next heard told
  | print : Next told ready
  | sendFails (message : Bytes) : Next ready (lost (some message))
  | loseRequest (message : Bytes) : Next (asked message) (lost (some message))
  | replyFails : Next heard (lost none)
  | loseReply : Next told (lost none)

end Phase

/-- The datagrams among the answers of `recvfrom`, with their senders. -/
def datagrams (answers : List (RecvfromResult ι)) : List (ι × Bytes) :=
  answers.filterMap fun
    | .ok payload peer => some (peer, payload)
    | .err _ => none

omit [DecidableEq ι] in
theorem datagrams_snoc (answers : List (RecvfromResult ι)) (payload : Bytes) (peer : ι) :
    datagrams (answers ++ [.ok payload peer]) = datagrams answers ++ [(peer, payload)] := by
  simp [datagrams]

/-- The messages of the client `i` that the server has received, in their order. These are the
    datagrams as they were sent; of one with more than 1023 bytes the buffer gets the first 1023. -/
def heardFrom (s : Udp ι) (i : ι) : List Bytes := mail i (datagrams s.server.answers)

/-- **The system shows the client `i` in the phase `p`.** -/
structure Shows (s : Udp ι) (i : ι) (p : Phase) : Prop where
  point : (s.client i).point = p.point
  requests : mail i s.requests = p.requests
  served : s.server.point = .sendto (some i) ↔ p.served = true
  replies : mail i s.replies = p.replies
  messages : (s.client i).messages = s.heardFrom i ++ p.unheard
  printed : (s.client i).serverSay.length + p.due = (s.client i).messages.length

/-- The steps in which no `recvfrom` fails and the network copies nothing. -/
def Clean : Act ι → Prop
  | .receiveFails _ _ | .hearFails _ | .copyRequest _ _ | .copyReply _ _ => False
  | .send _ _ _ | .receive _ _ | .hear _ _ | .reply _ | .loseRequest _ _ | .loseReply _ _ => True

def CleanStep : Udp ι → Act ι → Udp ι → Prop := Guarded (fun _ a => Clean a) (Step step)

section Steps

variable {s s' : Udp ι} {i j : ι} {p : Phase} {payload message : Bytes} {target : Option ι}
  {sent : Bool}

/-- What the client `i` does not notice. -/
theorem Shows.frame (h : Shows s i p) (hclient : s'.client i = s.client i)
    (hrequests : mail i s'.requests = mail i s.requests)
    (hserved : s'.server.point = .sendto (some i) ↔ s.server.point = .sendto (some i))
    (hreplies : mail i s'.replies = mail i s.replies) (hheard : s'.heardFrom i = s.heardFrom i) :
    Shows s' i p where
  point := by rw [hclient, h.point]
  requests := hrequests.trans h.requests
  served := hserved.trans h.served
  replies := hreplies.trans h.replies
  messages := by rw [hclient, hheard, h.messages]
  printed := by rw [hclient, h.printed]

/-- A client at the prompt has nothing in the system. -/
theorem Shows.ready (h : Shows s i p) (hi : (s.client i).point = .prompt) : p = .ready := by
  have hpoint := h.point
  rw [hi] at hpoint
  cases p with
  | ready => rfl
  | asked _ | heard | told | lost _ => cases hpoint

theorem Shows.asked (h : Shows s i p) (hx : payload ∈ mail i s.requests) : p = .asked payload := by
  rw [h.requests] at hx
  cases p with
  | asked message =>
    obtain rfl := List.mem_singleton.1 hx
    rfl
  | ready | heard | told | lost _ => cases hx

theorem Shows.heard (h : Shows s i p) (hi : s.server.point = .sendto (some i)) : p = .heard := by
  have hserved := h.served.1 hi
  cases p with
  | heard => rfl
  | ready | asked _ | told | lost _ => cases hserved

theorem Shows.told (h : Shows s i p) (hx : payload ∈ mail i s.replies) :
    p = .told ∧ payload = helloClient := by
  rw [h.replies] at hx
  cases p with
  | told => exact ⟨rfl, List.mem_singleton.1 hx⟩
  | ready | asked _ | heard | lost _ => cases hx

/-- What a step leads to: the phase stays, or is the next one. -/
def Goes (s' : Udp ι) (i : ι) (p : Phase) : Prop :=
  ∃ p', (p' = p ∨ Phase.Next p p') ∧ Shows s' i p'

theorem goes_send (h : Shows s i p) {c : UdpClient} (hc : (s.client j).sendto message = some c) :
    Goes { s.withClient j c with
      requests := s.requests ++ (if sent = true then [(j, message)] else []) } i p := by
  obtain ⟨hj, rfl⟩ := sendto_moves hc
  by_cases hji : j = i
  · subst hji
    obtain rfl := h.ready hj
    have hprinted : (s.client j).serverSay.length + 0 = (s.client j).messages.length := h.printed
    have hmessages : (s.client j).messages = s.heardFrom j ++ [] := h.messages
    rw [List.append_nil] at hmessages
    cases sent with
    | true =>
      refine ⟨.asked message, .inr (.ask message), ?_, ?_, h.served, h.replies, ?_, ?_⟩
      · simp [withClient, Phase.point]
      · exact mail_send_self.trans (congrArg (· ++ [message]) h.requests)
      · simp [withClient, hmessages, heardFrom, Phase.unheard]
      · simp [withClient, Phase.due, ← hprinted]
    | false =>
      refine ⟨.lost (some message), .inr (.sendFails message), ?_, ?_, h.served, h.replies, ?_, ?_⟩
      · simp [withClient, Phase.point]
      · exact (congrArg (mail j) (List.append_nil _)).trans h.requests
      · simp [withClient, hmessages, heardFrom, Phase.unheard]
      · simp [withClient, Phase.due, ← hprinted]
  · refine ⟨p, .inl rfl, h.frame ?_ ?_ Iff.rfl rfl rfl⟩
    · exact Function.update_of_ne (Ne.symm hji) _ _
    · cases sent with
      | true => exact mail_send_ne hji
      | false => exact congrArg (mail i) (List.append_nil _)

theorem goes_receive (h : Shows s i p) {replies : List (ι × Bytes)} {c : UdpClient}
    (ht : taken s.replies (j, payload) = some replies)
    (hc : (s.client j).recvfrom (.ok payload () : RecvfromResult Unit) = some c) :
    Goes { s.withClient j c with replies := replies } i p := by
  obtain ⟨-, rfl⟩ := recvfrom_moves hc
  by_cases hji : j = i
  · subst hji
    obtain ⟨rfl, rfl⟩ := h.told (mem_of_taken ht)
    have hprinted : (s.client j).serverSay.length + 1 = (s.client j).messages.length := h.printed
    have hmessages : (s.client j).messages = s.heardFrom j ++ [] := h.messages
    refine ⟨.ready, .inr .print, ?_, h.requests, h.served, ?_, ?_, ?_⟩
    · simp [withClient, Phase.point]
    · exact mail_taken_only ht h.replies
    · simpa [withClient, heardFrom, Phase.unheard] using hmessages
    · simpa [withClient, Phase.due] using hprinted
  · refine ⟨p, .inl rfl, h.frame ?_ rfl Iff.rfl (mail_taken_ne ht hji) rfl⟩
    exact Function.update_of_ne (Ne.symm hji) _ _

theorem goes_hear (h : Shows s i p) {requests : List (ι × Bytes)} {t : Server ι}
    (ht : taken s.requests (j, payload) = some requests)
    (hs : s.server.recvfrom (.ok payload j) = some t) :
    Goes { s with server := t, requests := requests } i p := by
  obtain ⟨hp, rfl⟩ := server_moves hs
  by_cases hji : j = i
  · subst hji
    obtain rfl := h.asked (mem_of_taken ht)
    refine ⟨.heard, .inr (.hear payload), h.point, ?_, ?_, h.replies, ?_, h.printed⟩
    · exact mail_taken_only ht h.requests
    · simp [RecvfromResult.peer, Phase.served]
    · simp only [heardFrom, datagrams_snoc, mail_send_self, Phase.unheard, List.append_nil]
      exact h.messages
  · refine ⟨p, .inl rfl, h.frame rfl (mail_taken_ne ht hji) ?_ rfl ?_⟩
    · simp [hp, RecvfromResult.peer, hji]
    · simp only [heardFrom, datagrams_snoc, mail_send_ne hji]

/-- The server answers the client it has heard. -/
theorem goes_reply (h : Shows s i p) (hp : s.server.point = .sendto (some j))
    (htarget : target = none ∨ target = some j) :
    Goes { s with
      server := { s.server with point := .recvfrom },
      replies := s.replies ++ target.toList.map fun i => (i, helloClient) } i p := by
  by_cases hji : j = i
  · subst hji
    obtain rfl := h.heard hp
    rcases htarget with rfl | rfl
    · refine ⟨.lost none, .inr .replyFails, h.point, h.requests, ?_, ?_, h.messages, h.printed⟩
      · simp [Phase.served]
      · exact (congrArg (mail j) (List.append_nil _)).trans h.replies
    · refine ⟨.told, .inr .tell, h.point, h.requests, ?_, ?_, h.messages, h.printed⟩
      · simp [Phase.served]
      · exact mail_send_self.trans (congrArg (· ++ [helloClient]) h.replies)
  · refine ⟨p, .inl rfl, h.frame rfl rfl ?_ ?_ rfl⟩
    · simp [hp, hji]
    · rcases htarget with rfl | rfl
      · exact congrArg (mail i) (List.append_nil _)
      · exact mail_send_ne hji

theorem goes_loseRequest (h : Shows s i p) {requests : List (ι × Bytes)}
    (ht : taken s.requests (j, payload) = some requests) :
    Goes { s with requests := requests } i p := by
  by_cases hji : j = i
  · subst hji
    obtain rfl := h.asked (mem_of_taken ht)
    exact ⟨.lost (some payload), .inr (.loseRequest payload), h.point,
      mail_taken_only ht h.requests, h.served, h.replies, h.messages, h.printed⟩
  · exact ⟨p, .inl rfl, h.frame rfl (mail_taken_ne ht hji) Iff.rfl rfl rfl⟩

theorem goes_loseReply (h : Shows s i p) {replies : List (ι × Bytes)}
    (ht : taken s.replies (j, payload) = some replies) :
    Goes { s with replies := replies } i p := by
  by_cases hji : j = i
  · subst hji
    obtain ⟨rfl, rfl⟩ := h.told (mem_of_taken ht)
    exact ⟨.lost none, .inr .loseReply, h.point, h.requests, h.served,
      mail_taken_only ht h.replies, h.messages, h.printed⟩
  · exact ⟨p, .inl rfl, h.frame rfl rfl Iff.rfl (mail_taken_ne ht hji) rfl⟩

/-- **The step lemma.** In a clean step every client stays in its phase or goes on to the next
    one. -/
theorem goes_step {a : Act ι} (h : Shows s i p) (hset : s.server.point ≠ .sendto none)
    (hst : CleanStep s a s') : Goes s' i p := by
  obtain ⟨hclean, hst⟩ := hst
  cases step_moves hst with
  | send hc => exact goes_send h hc
  | receive ht hc => exact goes_receive h ht hc
  | hear ht hs => exact goes_hear h ht hs
  | @reply peer target hp htarget =>
    cases peer with
    | none => exact absurd hp hset
    | some j => exact goes_reply h hp (htarget.resolve_left (Option.some_ne_none j))
  | loseRequest ht => exact goes_loseRequest h ht
  | loseReply ht => exact goes_loseReply h ht
  | receiveFails | hearFails | copyRequest | copyReply => exact hclean.elim

/-- The address that the server answers is set. -/
theorem set_step {a : Act ι} (hset : s.server.point ≠ .sendto none) (hst : CleanStep s a s') :
    s'.server.point ≠ .sendto none := by
  obtain ⟨hclean, hst⟩ := hst
  cases step_moves hst with
  | send | receive | loseRequest | loseReply => exact hset
  | hear ht hs =>
    obtain ⟨-, rfl⟩ := server_moves hs
    simp [RecvfromResult.peer]
  | reply => simp
  | receiveFails | hearFails | copyRequest | copyReply => exact hclean.elim

end Steps

/-! ## Runs -/

section Runs

variable {s : Udp ι} {acts : List (Act ι)} {server : Buffer} {client : ι → Buffer}

theorem shows_start (i : ι) : Shows (start server client) i .ready where
  point := rfl
  requests := rfl
  served := by simp [start, Phase.served]
  replies := rfl
  messages := rfl
  printed := rfl

/-- What holds of every state that clean steps reach. -/
structure Kept (s : Udp ι) : Prop where
  shows : ∀ i, ∃ p, Shows s i p
  set : s.server.point ≠ .sendto none

theorem Kept.step {s' : Udp ι} {a : Act ι} (h : Kept s) (hst : CleanStep s a s') : Kept s' where
  shows := by
    intro i
    obtain ⟨p, hp⟩ := h.shows i
    obtain ⟨p', -, hp'⟩ := goes_step hp h.set hst
    exact ⟨p', hp'⟩
  set := set_step h.set hst

theorem kept_run (h : Run CleanStep (start server client) acts s) : Kept s :=
  h.invariant (fun _ _ _ hk hst => hk.step hst)
    ⟨fun i => ⟨.ready, shows_start i⟩, by simp [start]⟩

instance : DecidablePred (Clean (ι := ι)) := by
  intro a
  cases a <;> unfold Clean <;> infer_instance

/-- The request of the one client is lost; the other one gets its answer. -/
def lostActs : List (Act Bool) :=
  [.send false [104, 105] true, .send true [121, 111] true, .loseRequest false [104, 105],
    .hear true [121, 111], .reply (some true), .receive true helloClient]

/-- What the run leads to, with buffers that are zero at first. -/
theorem exists_lost : ∃ s, Run CleanStep (start zeroed fun _ => zeroed) lostActs s ∧
    (s.client false).point = .recvfrom ∧ (s.client true).serverSay.length = 1 ∧ s.requests = [] ∧
    s.server.point = .recvfrom ∧ s.replies = [] := by
  have hany : (exec (fun s a => if Clean a then step s a else none)
      (start zeroed fun _ : Bool => zeroed) lostActs).any (fun s => decide
        ((s.client false).point = .recvfrom ∧ (s.client true).serverSay.length = 1 ∧ s.requests = [] ∧
          s.server.point = .recvfrom ∧ s.replies = [])) = true := by
    decide +kernel
  obtain ⟨s, hs, hend⟩ := exists_of_any hany
  exact ⟨s, exec_guarded hs, hend⟩

/-- **In order, and once.** While no `recvfrom` fails and no datagram is copied, whatever the network
    loses and however it reorders, the server hears of each client its first messages in the order in
    which they were sent, each once. All that it may not have heard is the last one, and the client
    has printed an answer to each message but the last one. -/
theorem udp_in_order (h : Run CleanStep (start server client) acts s) (i : ι) :
    s.heardFrom i <+: (s.client i).messages ∧
      (s.client i).messages.length ≤ (s.client i).serverSay.length + 1 ∧
      (s.client i).serverSay.length ≤ (s.heardFrom i).length ∧
      ((s.client i).point = .prompt ↔
        (s.client i).serverSay.length = (s.client i).messages.length) := by
  obtain ⟨p, hp⟩ := (kept_run h).shows i
  have hmessages := hp.messages
  have hprinted := hp.printed
  have hlength := congrArg List.length hmessages
  rw [List.length_append] at hlength
  have hsizes : p.unheard.length ≤ p.due ∧ p.due ≤ 1 := by
    cases p with
    | lost message => cases message <;> simp [Phase.unheard, Phase.due]
    | ready | asked _ | heard | told => simp [Phase.unheard, Phase.due]
  have hprompt : (s.client i).point = .prompt ↔ p.due = 0 := by
    rw [hp.point]
    cases p <;> simp [Phase.point, Phase.due]
  refine ⟨⟨_, hmessages.symm⟩, by omega, by omega, ?_⟩
  rw [hprompt]
  omega

theorem udp_in_order_lost : ∃ s, Run CleanStep (start zeroed fun _ => zeroed) lostActs s ∧
    (s.client true).serverSay.length = 1 ∧ s.heardFrom true <+: (s.client true).messages := by
  obtain ⟨s, hrun, -, hone, -⟩ := exists_lost
  exact ⟨s, hrun, hone, (udp_in_order hrun true).1⟩

/-! ## Who waits for ever -/

/-- The system holds a datagram of the client `i`. -/
def InSystem (s : Udp ι) (i : ι) : Prop :=
  (∃ m, (i, m) ∈ s.requests) ∨ s.server.point = .sendto (some i) ∨ ∃ m, (i, m) ∈ s.replies

/-- Nothing of the client is left exactly at the prompt and after a loss. -/
theorem inSystem_iff {i : ι} {p : Phase} (h : Shows s i p) :
    InSystem s i ↔ (∃ m, p = .asked m) ∨ p = .heard ∨ p = .told := by
  unfold InSystem
  simp only [← mem_mail, h.requests, h.replies, h.served]
  cases p <;> simp [Phase.requests, Phase.replies, Phase.served]

/-- Whoever has lost the datagram waits and prints nothing. -/
theorem client_of_lost {t t' : Udp ι} {i : ι} {a : Act ι} {message : Option Bytes}
    (h : Shows t i (.lost message)) (hst : CleanStep t a t') : t'.client i = t.client i := by
  obtain ⟨hclean, hst⟩ := hst
  have hwaits : (t.client i).point = .recvfrom := h.point
  cases step_moves hst with
  | @send j message sent c hc =>
    have hij : i ≠ j := by
      rintro rfl
      rw [(sendto_moves hc).1] at hwaits
      cases hwaits
    exact Function.update_of_ne hij _ _
  | @receive j payload replies c ht hc =>
    have hij : i ≠ j := by
      rintro rfl
      cases (h.told (mem_of_taken ht)).1
    exact Function.update_of_ne hij _ _
  | hear | reply | loseRequest | loseReply => rfl
  | receiveFails | hearFails | copyRequest | copyReply => exact hclean.elim

theorem lost_step {t t' : Udp ι} {i : ι} {a : Act ι} {message : Option Bytes}
    (h : Shows t i (.lost message)) (hset : t.server.point ≠ .sendto none)
    (hst : CleanStep t a t') : Shows t' i (.lost message) := by
  obtain ⟨p, rfl | hnext, hp⟩ := goes_step h hset hst
  · exact hp
  · cases hnext

/-- A reply in flight can arrive. -/
theorem exists_receive {i : ι} (h : Shows s i .told) :
    ∃ a t, CleanStep s a t ∧ (t.client i).point = .prompt := by
  have hmem : helloClient ∈ mail i s.replies := by simp [h.replies, Phase.replies]
  have hpoint : (s.client i).point = .recvfrom := h.point
  obtain ⟨replies, htaken⟩ := exists_taken hmem
  obtain ⟨c, hc, hprompt⟩ : ∃ c, (s.client i).recvfrom (.ok helloClient ()) = some c ∧
      c.point = .prompt := by
    simp [UdpClient.recvfrom, hpoint]
  have hst : s.receive i helloClient = some { s.withClient i c with replies := replies } := by
    simp [receive, htaken, hc]
  refine ⟨.receive i helloClient, _, ⟨trivial, hst⟩, ?_⟩
  simpa [withClient] using hprompt

/-- The server can answer a client that it has heard. -/
theorem exists_reply {i : ι} (hk : Kept s) (h : Shows s i .heard) :
    ∃ a t, CleanStep s a t ∧ Shows t i .told := by
  have hserver : s.server.point = .sendto (some i) := h.served.2 rfl
  have hst : s.reply (some i) = some { s with
      server := { s.server with point := .recvfrom },
      replies := s.replies ++ [(i, helloClient)] } := by
    simp [reply, hserver]
  have hclean : CleanStep s (.reply (some i)) _ := ⟨trivial, hst⟩
  obtain ⟨p, -, hp⟩ := goes_step h hk.set hclean
  have hmem : helloClient ∈ mail i (s.replies ++ [(i, helloClient)]) := by
    simp [mail_send_self]
  obtain ⟨rfl, -⟩ := hp.told hmem
  exact ⟨_, _, hclean, hp⟩

/-- A server that waits can hear a request in flight. -/
theorem exists_hear {i : ι} {message : Bytes} (hk : Kept s) (h : Shows s i (.asked message))
    (hfree : s.server.point = .recvfrom) : ∃ a t, CleanStep s a t ∧ Shows t i .heard := by
  have hmem : message ∈ mail i s.requests := by simp [h.requests, Phase.requests]
  obtain ⟨requests, htaken⟩ := exists_taken hmem
  obtain ⟨server, hserver⟩ : ∃ server, s.server.recvfrom (.ok message i) = some server := by
    simp [Server.recvfrom, hfree]
  have hst : s.hear i message = some { s with server := server, requests := requests } := by
    simp [hear, htaken, hserver]
  have hclean : CleanStep s (.hear i message) _ := ⟨trivial, hst⟩
  have hpoint : server.point = .sendto (some i) := by
    simp only [Server.recvfrom, hfree, Option.some.injEq] at hserver
    rw [← hserver]
    rfl
  obtain ⟨p, -, hp⟩ := goes_step h hk.set hclean
  obtain rfl := hp.heard hpoint
  exact ⟨_, _, hclean, hp⟩

/-- The server can finish with the client it is about to answer. -/
theorem exists_free {i : ι} {message : Bytes} (hk : Kept s) (h : Shows s i (.asked message)) :
    ∃ as t, Run CleanStep s as t ∧ Shows t i (.asked message) ∧ t.server.point = .recvfrom := by
  cases hp : s.server.point with
  | recvfrom => exact ⟨[], s, .nil, h, hp⟩
  | sendto peer =>
    have hst : s.reply none = some { s with
        server := { s.server with point := .recvfrom }, replies := s.replies ++ [] } := by
      simp [reply, hp]
    have hclean : CleanStep s (.reply none) _ := ⟨trivial, hst⟩
    have hmem : message ∈ mail i s.requests := by simp [h.requests, Phase.requests]
    obtain ⟨p, -, hshows⟩ := goes_step h hk.set hclean
    obtain rfl := hshows.asked hmem
    exact ⟨_, _, .single hclean, hshows, rfl⟩

/-- A client with a datagram in the system can come back to the prompt. -/
theorem exists_prompt {i : ι} {p : Phase} (hk : Kept s) (h : Shows s i p) (hin : InSystem s i) :
    ∃ as t, Run CleanStep s as t ∧ (t.client i).point = .prompt := by
  have htold : ∀ u, Shows u i .told → ∃ as t, Run CleanStep u as t ∧
      (t.client i).point = .prompt := by
    intro u hu
    obtain ⟨a, t, hst, ht⟩ := exists_receive hu
    exact ⟨_, t, .single hst, ht⟩
  have hheard : ∀ u, Kept u → Shows u i .heard → ∃ as t, Run CleanStep u as t ∧
      (t.client i).point = .prompt := by
    intro u hku hu
    obtain ⟨a, v, hst, hv⟩ := exists_reply hku hu
    obtain ⟨as, t, hrun, ht⟩ := htold v hv
    exact ⟨_, t, (Run.single hst).append hrun, ht⟩
  rcases (inSystem_iff h).1 hin with ⟨message, rfl⟩ | rfl | rfl
  · obtain ⟨as, u, hrun, hu, hfree⟩ := exists_free hk h
    have hku : Kept u := hrun.invariant (fun _ _ _ hk hst => hk.step hst) hk
    obtain ⟨a, v, hst, hv⟩ := exists_hear hku hu hfree
    obtain ⟨bs, t, hrun', ht⟩ := hheard v (hku.step hst) hv
    exact ⟨_, t, (hrun.snoc hst).append hrun', ht⟩
  · exact hheard s hk h
  · exact htold s h

/-- **Who waits for ever.** A client that waits for an answer can come back to the prompt exactly
    while the system holds a datagram of it: its request, the server about to answer it, or the
    reply. If there is none, it stays as it is in every run. -/
theorem udp_waits_iff (h : Run CleanStep (start server client) acts s) (i : ι)
    (hwaits : (s.client i).point = .recvfrom) :
    ((∃ rest t, Run CleanStep s rest t ∧ (t.client i).point = .prompt) ↔ InSystem s i) ∧
      (¬ InSystem s i → ∀ rest t, Run CleanStep s rest t → t.client i = s.client i) := by
  have hk := kept_run h
  obtain ⟨p, hp⟩ := hk.shows i
  have hlost : ¬ InSystem s i → ∀ rest t, Run CleanStep s rest t → t.client i = s.client i := by
    intro hnot rest t hrun
    have hphase : ∃ message, p = .lost message := by
      rw [inSystem_iff hp] at hnot
      have hpoint := hp.point
      rw [hwaits] at hpoint
      cases p with
      | lost message => exact ⟨message, rfl⟩
      | ready => cases hpoint
      | asked _ | heard | told => simp at hnot
    obtain ⟨message, rfl⟩ := hphase
    have hkept : (Kept t ∧ Shows t i (.lost message)) ∧ t.client i = s.client i := by
      refine hrun.invariant
        (I := fun t => (Kept t ∧ Shows t i (.lost message)) ∧ t.client i = s.client i) ?_
        ⟨⟨hk, hp⟩, rfl⟩
      rintro u a v ⟨⟨hku, hu⟩, hsame⟩ hst
      exact ⟨⟨hku.step hst, lost_step hu hku.set hst⟩, (client_of_lost hu hst).trans hsame⟩
    exact hkept.2
  refine ⟨⟨?_, exists_prompt hk hp⟩, hlost⟩
  rintro ⟨rest, t, hrun, ht⟩
  by_contra hnot
  rw [hlost hnot rest t hrun, hwaits] at ht
  cases ht

theorem udp_waits_iff_lost : ∃ s, Run CleanStep (start zeroed fun _ => zeroed) lostActs s ∧
    ∀ rest t, Run CleanStep s rest t → t.client false = s.client false := by
  obtain ⟨s, hrun, hwaits, -, hrequests, hserver, hreplies⟩ := exists_lost
  have hnot : ¬ InSystem s false := by
    simp [InSystem, hrequests, hserver, hreplies]
  exact ⟨s, hrun, (udp_waits_iff hrun false hwaits).2 hnot⟩

end Runs

/-! ## What is printed -/

section Printed

variable {s s' : Udp ι} {acts : List (Act ι)} {a : Act ι} {server : Buffer} {client : ι → Buffer}

omit [DecidableEq ι] in
theorem after_snoc (b : Buffer) (answers : List (RecvfromResult ι)) (answer : RecvfromResult ι) :
    b.after (answers ++ [answer]) = (b.after answers).recvfrom answer := by
  simp [Buffer.after]

omit [DecidableEq ι] in
theorem serve_snoc (b : Buffer) (answers : List (RecvfromResult ι)) (answer : RecvfromResult ι) :
    serve b (answers ++ [answer]) = serve b answers ++
      [{ clientSay := ((b.after answers).recvfrom answer).text, helloClient := answer.peer }] := by
  induction answers generalizing b with
  | nil => rfl
  | cons first rest ih =>
    have hrest := ih (b.recvfrom first)
    simp only [List.cons_append, serve, hrest]
    rfl

/-- A second datagram with the same payload changes nothing. -/
theorem store_store (b : Buffer) (payload : Bytes) :
    (b.store payload).store payload = b.store payload := by
  simp [Buffer.store]

/-- The server has printed what its loop prints on these answers. -/
def Follows (b : Buffer) (server : Server ι) : Prop :=
  server.buffer = b.after server.answers ∧
    server.clientSay = (serve b server.answers).map Round.clientSay

omit [DecidableEq ι] in
theorem Follows.recvfrom {b : Buffer} {t t' : Server ι} (h : Follows b t)
    {answer : RecvfromResult ι} (hst : t.recvfrom answer = some t') : Follows b t' := by
  obtain ⟨-, rfl⟩ := server_moves hst
  obtain ⟨hbuffer, hsay⟩ := h
  exact ⟨by simp [hbuffer, after_snoc], by simp [hbuffer, hsay, serve_snoc]⟩

theorem follows_step (h : Follows server s.server) (hst : Step step s a s') :
    Follows server s'.server := by
  cases step_moves hst with
  | hear ht hs | hearFails hs => exact h.recvfrom hs
  | send | receive | receiveFails | reply | loseRequest | loseReply | copyRequest | copyReply =>
    exact h

/-- The text that a client with this buffer prints for a reply. -/
def replyText (b : Buffer) : Option Bytes := (b.store helloClient).text

/-- What a client has printed: `n` texts before its first reply, and `m` since. -/
def Printed (b : Buffer) (n m : Nat) (c : UdpClient) : Prop :=
  c.serverSay = List.replicate n b.text ++ List.replicate m (replyText b) ∧
    c.buffer = if m = 0 then b else b.store helloClient

/-- A reply is printed. -/
theorem Printed.reply {b : Buffer} {n m : Nat} {c c' : UdpClient} (h : Printed b n m c)
    (hsay : c'.serverSay = c.serverSay ++ [c'.buffer.text])
    (hbuffer : c'.buffer = c.buffer.store helloClient) : Printed b n (m + 1) c' := by
  have hstored : c'.buffer = b.store helloClient := by
    rw [hbuffer, h.2]
    split_ifs
    · rfl
    · exact store_store b helloClient
  refine ⟨?_, by rw [hstored, if_neg (Nat.succ_ne_zero m)]⟩
  rw [hsay, h.1, hstored, List.replicate_succ', List.append_assoc]
  rfl

end Printed

end SystemCallLearn.Net.Udp
