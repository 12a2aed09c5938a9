import Mathlib.Data.List.Basic

/-!
# Messages in flight

The messages between one party and many others, of which it is not known in what order they arrive,
are a list of pairs of an address and a message. `mail k net` are those of the address `k`; sending
and taking a message changes the mail of one address only.
-/

namespace SystemCallLearn.Lib

variable {κ δ : Type*} [DecidableEq κ] [DecidableEq δ]

/-- The messages of the address `k`. -/
def mail (k : κ) (net : List (κ × δ)) : List δ :=
  net.filterMap fun x => if x.1 = k then some x.2 else none

/-- A message is taken from the net, if it is there. -/
def taken (net : List (κ × δ)) (x : κ × δ) : Option (List (κ × δ)) :=
  if x ∈ net then some (net.erase x) else none

section Mail

variable {k k' : κ} {d : δ} {net net' : List (κ × δ)}

omit [DecidableEq δ] in
theorem mem_mail : d ∈ mail k net ↔ (k, d) ∈ net := by
  unfold mail
  rw [List.mem_filterMap]
  constructor
  · rintro ⟨⟨k', d'⟩, hx, hsome⟩
    split_ifs at hsome with hk
    obtain rfl := Option.some.inj hsome
    obtain rfl : k' = k := hk
    exact hx
  · intro hx
    exact ⟨(k, d), hx, if_pos rfl⟩

omit [DecidableEq δ] in
theorem mail_append : mail k (net ++ net') = mail k net ++ mail k net' := List.filterMap_append

omit [DecidableEq δ] in
theorem mail_cons_self : mail k ((k, d) :: net) = d :: mail k net := by
  simp [mail]

omit [DecidableEq δ] in
theorem mail_cons_ne (h : k' ≠ k) : mail k ((k', d) :: net) = mail k net := by
  simp [mail, h]

omit [DecidableEq δ] in
theorem mail_send_self : mail k (net ++ [(k, d)]) = mail k net ++ [d] := by
  rw [mail_append, mail_cons_self]
  rfl

omit [DecidableEq δ] in
theorem mail_send_ne (h : k' ≠ k) : mail k (net ++ [(k', d)]) = mail k net := by
  rw [mail_append, mail_cons_ne h]
  exact List.append_nil _

theorem taken_eq_some : taken net (k, d) = some net' ↔ (k, d) ∈ net ∧ net' = net.erase (k, d) := by
  unfold taken
  split_ifs with hx
  · simp [hx, eq_comm]
  · simp [hx]

theorem exists_taken (h : d ∈ mail k net) : ∃ net', taken net (k, d) = some net' :=
  ⟨_, taken_eq_some.2 ⟨mem_mail.1 h, rfl⟩⟩

theorem mail_taken_self (h : taken net (k, d) = some net') :
    d ∈ mail k net ∧ mail k net' = (mail k net).erase d := by
  obtain ⟨hx, rfl⟩ := taken_eq_some.1 h
  refine ⟨mem_mail.2 hx, ?_⟩
  obtain ⟨as, bs, hnot, hnet, herase⟩ := List.exists_erase_eq hx
  have hd : d ∉ mail k as := fun hd => hnot (mem_mail.1 hd)
  rw [herase, hnet, mail_append, mail_append, mail_cons_self, List.erase_append_right _ hd,
    List.erase_cons_head]

theorem mem_of_taken (h : taken net (k, d) = some net') : d ∈ mail k net := (mail_taken_self h).1

/-- The only message of an address is taken. -/
theorem mail_taken_only (h : taken net (k, d) = some net') {d' : δ} (hmail : mail k net = [d']) :
    mail k net' = [] := by
  obtain ⟨hmem, herase⟩ := mail_taken_self h
  rw [hmail] at hmem herase
  obtain rfl := List.mem_singleton.1 hmem
  rw [herase, List.erase_cons_head]

theorem mail_taken_ne (h : taken net (k', d) = some net') (hk : k' ≠ k) :
    mail k net' = mail k net := by
  obtain ⟨hx, rfl⟩ := taken_eq_some.1 h
  obtain ⟨as, bs, -, hnet, herase⟩ := List.exists_erase_eq hx
  rw [herase, hnet, mail_append, mail_append, mail_cons_ne hk]

end Mail

end SystemCallLearn.Lib
