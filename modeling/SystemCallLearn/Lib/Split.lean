import Mathlib.Data.List.Basic
import Mathlib.Data.List.Infix
import Mathlib.Data.List.Count

/-!
# Cutting a list at a separator

`Splits sep s ts r` says that cutting `s` at the first occurrence of `sep`, again and again, gives
the tokens `ts` and leaves the rest `r`, in which `sep` does not occur. The central rule is
`Splits.append`: more input behind `s` is cut after the tokens of `s`, starting from the rest. It
makes cutting a stream independent of the pieces in which the stream arrives.

Cutting is the inverse of joining (`Splits.join`, `Splits.of_join`): the tokens that it returns are
those that the separator first ends where they end.
-/

namespace SystemCallLearn.Lib

variable {α : Type*} [DecidableEq α]

/-- The position of the first occurrence of `sep`. -/
def firstOcc (sep : List α) : List α → Option Nat
  | [] => if sep = [] then some 0 else none
  | c :: s => if sep <+: c :: s then some 0 else (firstOcc sep s).map (· + 1)

/-- `sep` occurs in `s` at position `p` and at no earlier one. -/
def FirstAt (sep s : List α) (p : Nat) : Prop :=
  sep <+: s.drop p ∧ ∀ q < p, ¬ sep <+: s.drop q

/-- The tokens and the rest of `s`. -/
inductive Splits (sep : List α) : List α → List (List α) → List α → Prop where
  | rest {s : List α} (h : firstOcc sep s = none) : Splits sep s [] s
  | token {s r : List α} {ts : List (List α)} {p : Nat} (h : firstOcc sep s = some p)
      (hr : Splits sep (s.drop (p + sep.length)) ts r) : Splits sep s (s.take p :: ts) r

section General

variable {sep s r b : List α} {ts : List (List α)} {p : Nat}

/-- An occurrence ends within the list. -/
theorem firstOcc_bound (h : firstOcc sep s = some p) : p + sep.length ≤ s.length := by
  induction s generalizing p with
  | nil =>
    simp only [firstOcc, Option.ite_none_right_eq_some, Option.some.injEq] at h
    simp [h.1, ← h.2]
  | cons c s ih =>
    simp only [firstOcc] at h
    split at h
    · rename_i hpre
      have hlen := hpre.length_le
      simp only [Option.some.injEq] at h
      omega
    · simp only [Option.map_eq_some_iff] at h
      obtain ⟨p', hp', rfl⟩ := h
      have hp := ih hp'
      simp only [List.length_cons]
      omega

/-- Input behind the list does not move its first occurrence. -/
theorem firstOcc_append (h : firstOcc sep s = some p) : firstOcc sep (s ++ b) = some p := by
  induction s generalizing p with
  | nil =>
    simp only [firstOcc, Option.ite_none_right_eq_some, Option.some.injEq] at h
    obtain ⟨rfl, rfl⟩ := h
    cases b <;> simp [firstOcc]
  | cons c s ih =>
    have hbound := firstOcc_bound h
    simp only [firstOcc] at h
    simp only [List.cons_append, firstOcc]
    split at h
    · rename_i hpre
      have hpre' : sep <+: c :: (s ++ b) := hpre.trans (List.prefix_append (c :: s) b)
      rw [if_pos hpre']
      exact h
    · rename_i hpre
      -- an occurrence at the head of the longer list would already fit into `c :: s`
      have hpre' : ¬ sep <+: c :: (s ++ b) := fun hp =>
        hpre (List.prefix_of_prefix_length_le hp (List.prefix_append (c :: s) b) (by omega))
      simp only [Option.map_eq_some_iff] at h
      obtain ⟨p', hp', rfl⟩ := h
      rw [if_neg hpre', ih hp']
      rfl

omit [DecidableEq α] in
theorem firstAt_cons {c : α} (h : ¬ sep <+: c :: s) : FirstAt sep (c :: s) (p + 1) ↔
    FirstAt sep s p := by
  unfold FirstAt
  rw [List.drop_succ_cons]
  refine and_congr_right fun _ => ⟨fun hfirst q hq => ?_, fun hfirst q hq => ?_⟩
  · exact hfirst (q + 1) (by omega)
  · cases q with
    | zero => exact h
    | succ q => exact hfirst q (by omega)

/-- **`firstOcc` finds the first occurrence.** -/
theorem firstOcc_eq_some : firstOcc sep s = some p ↔ FirstAt sep s p := by
  induction s generalizing p with
  | nil =>
    unfold firstOcc FirstAt
    by_cases hsep : sep = []
    · subst hsep
      cases p with
      | zero => simp
      | succ p =>
        constructor
        · intro h
          cases h
        · rintro ⟨-, hfirst⟩
          exact absurd List.nil_prefix (hfirst 0 (Nat.succ_pos p))
    · simp [hsep]
  | cons c s ih =>
    unfold firstOcc
    by_cases hpre : sep <+: c :: s
    · rw [if_pos hpre]
      cases p with
      | zero => exact iff_of_true rfl ⟨hpre, fun q hq => by omega⟩
      | succ p =>
        apply iff_of_false (by simp)
        rintro ⟨-, hfirst⟩
        exact hfirst 0 (Nat.succ_pos p) hpre
    · rw [if_neg hpre]
      cases p with
      | zero => exact iff_of_false (by simp) fun h => hpre h.1
      | succ p =>
        rw [firstAt_cons hpre, ← ih]
        simp

/-- It fails exactly where there is none. -/
theorem firstOcc_eq_none : firstOcc sep s = none ↔ ¬ sep <:+: s := by
  induction s with
  | nil => simp [firstOcc]
  | cons c s ih =>
    unfold firstOcc
    rw [List.infix_cons_iff, not_or, ← ih]
    by_cases hpre : sep <+: c :: s
    · simp [hpre]
    · simp [hpre]

/-- The rest has no separator left. -/
theorem Splits.unfinished (h : Splits sep s ts r) : firstOcc sep r = none := by
  induction h with
  | rest h => exact h
  | token _ _ ih => exact ih

theorem Splits.unique {ts' : List (List α)} {r' : List α} (h : Splits sep s ts r)
    (h' : Splits sep s ts' r') : ts = ts' ∧ r = r' := by
  induction h generalizing ts' with
  | rest hn =>
    cases h' with
    | rest _ => exact ⟨rfl, rfl⟩
    | token hp _ => rw [hn] at hp; cases hp
  | token hp _ ih =>
    cases h' with
    | rest hn => rw [hn] at hp; cases hp
    | token hp' hr' =>
      have hpp : _ = _ := Option.some.inj (hp.symm.trans hp')
      subst hpp
      obtain ⟨rfl, rfl⟩ := ih hr'
      exact ⟨rfl, rfl⟩

theorem Splits.total (hsep : sep ≠ []) (s : List α) : ∃ ts r, Splits sep s ts r := by
  induction hn : s.length using Nat.strong_induction_on generalizing s with
  | _ n ih =>
    cases hf : firstOcc sep s with
    | none => exact ⟨[], s, .rest hf⟩
    | some p =>
      have hbound := firstOcc_bound hf
      have hpos : 0 < sep.length := List.length_pos_of_ne_nil hsep
      obtain ⟨ts, r, hr⟩ := ih _ (by rw [List.length_drop]; omega) (s.drop (p + sep.length)) rfl
      exact ⟨s.take p :: ts, r, .token hf hr⟩

/-- **Cutting is incremental.** The tokens of `s ++ b` are the tokens of `s` followed by the tokens
    of what `s` leaves, with `b` behind it. -/
theorem Splits.append {ts' : List (List α)} {r' : List α} (h : Splits sep s ts r)
    (h' : Splits sep (r ++ b) ts' r') : Splits sep (s ++ b) (ts ++ ts') r' := by
  induction h with
  | rest _ => exact h'
  | @token s r ts p hp hr ih =>
    have hbound := firstOcc_bound hp
    have hdrop : (s ++ b).drop (p + sep.length) = s.drop (p + sep.length) ++ b :=
      List.drop_append_of_le_length hbound
    have htake : (s ++ b).take p = s.take p := List.take_append_of_le_length (by omega)
    have hcut := Splits.token (firstOcc_append (b := b) hp) (by rw [hdrop]; exact ih h')
    rwa [htake] at hcut

/-- Of the tokens of a list its prefixes have the first ones. -/
theorem Splits.tokens_first {ts' : List (List α)} {r' : List α} (hsep : sep ≠ [])
    (h : Splits sep s ts r) (h' : Splits sep b ts' r') (hb : b <+: s) : ts' <+: ts := by
  obtain ⟨more, rfl⟩ := hb
  obtain ⟨ts'', r'', hmore⟩ := Splits.total hsep (r' ++ more)
  obtain ⟨rfl, -⟩ := h.unique (h'.append hmore)
  exact List.prefix_append ts' ts''

/-- What is cut is the tokens, each with the separator behind it, and the rest. -/
theorem Splits.join (h : Splits sep s ts r) : s = ts.flatMap (· ++ sep) ++ r := by
  induction h with
  | rest _ => rfl
  | @token s r ts p hp _ ih =>
    obtain ⟨z, hz⟩ := (firstOcc_eq_some.1 hp).1
    rw [← List.drop_drop, ← hz, List.drop_left] at ih
    rw [List.flatMap_cons, List.append_assoc, List.append_assoc, ← ih, hz, List.take_append_drop]

/-- The separator first ends a token where the token ends. -/
theorem Splits.firstAt (h : Splits sep s ts r) {t : List α} (ht : t ∈ ts) :
    FirstAt sep (t ++ sep) t.length := by
  induction h with
  | rest _ => cases ht
  | @token s r ts p hp _ ih =>
    rcases List.mem_cons.1 ht with rfl | ht
    · have hbound := firstOcc_bound hp
      obtain ⟨⟨z, hz⟩, hfirst⟩ := firstOcc_eq_some.1 hp
      have hlen : (s.take p).length = p := List.length_take_of_le (by omega)
      have hs : s = s.take p ++ sep ++ z := by
        rw [List.append_assoc, hz, List.take_append_drop]
      refine ⟨by rw [List.drop_left], ?_⟩
      intro q hq hpre
      rw [hlen] at hq
      rw [hs] at hfirst
      exact hfirst q hq (hpre.trans ((List.prefix_append _ z).drop q))
    · exact ih ht

/-- **Cutting is the inverse of joining.** -/
theorem Splits.of_join (hts : ∀ t ∈ ts, FirstAt sep (t ++ sep) t.length) (hr : ¬ sep <:+: r) :
    Splits sep (ts.flatMap (· ++ sep) ++ r) ts r := by
  induction ts with
  | nil => exact .rest (firstOcc_eq_none.2 hr)
  | cons t ts ih =>
    have hfirst := firstOcc_eq_some.2 (hts t List.mem_cons_self)
    have hrest := ih fun u hu => hts u (List.mem_cons_of_mem t hu)
    rw [List.flatMap_cons, List.append_assoc]
    have hcut : Splits sep (t ++ sep ++ (ts.flatMap (· ++ sep) ++ r))
        ((t ++ sep ++ (ts.flatMap (· ++ sep) ++ r)).take t.length :: ts) r :=
      .token (firstOcc_append hfirst) (by rwa [← List.length_append, List.drop_left])
    rwa [List.append_assoc, List.take_left, ← List.append_assoc] at hcut

theorem Splits.mem_of_mem (h : Splits sep s ts r) {t : List α} (ht : t ∈ ts) {c : α} (hc : c ∈ t) :
    c ∈ s := by
  induction h with
  | rest _ => cases ht
  | token _ _ ih =>
    rcases List.mem_cons.1 ht with rfl | ht
    · exact List.mem_of_mem_take hc
    · exact List.mem_of_mem_drop (ih ht)

end General

section Single

/-! ## A separator of one element -/

variable {x n : α} {s r b w z : List α} {ts : List (List α)} {p : Nat}

theorem firstOcc_single_none : firstOcc [x] s = none ↔ x ∉ s := by
  induction s with
  | nil => simp [firstOcc]
  | cons c s ih =>
    by_cases hc : x = c
    · simp [firstOcc, hc]
    · simp [firstOcc, hc, ih]

/-- The first occurrence of `x` splits the list into an `x`-free part, `x`, and the rest. -/
theorem firstOcc_single_some (h : firstOcc [x] s = some p) :
    s = s.take p ++ x :: s.drop (p + 1) ∧ x ∉ s.take p := by
  induction s generalizing p with
  | nil => simp [firstOcc] at h
  | cons c s ih =>
    by_cases hc : x = c
    · subst hc
      simp only [firstOcc, List.cons_prefix_cons, true_and, List.nil_prefix, if_true,
        Option.some.injEq] at h
      subst h
      simp
    · simp only [firstOcc, List.cons_prefix_cons, hc, false_and, if_false,
        Option.map_eq_some_iff] at h
      obtain ⟨p', hp', rfl⟩ := h
      obtain ⟨h1, h2⟩ := ih hp'
      exact ⟨by simpa using h1, by simp [hc, h2]⟩

theorem firstOcc_single (h : x ∉ w) : firstOcc [x] (w ++ [x] ++ z) = some w.length := by
  induction w with
  | nil => simp [firstOcc]
  | cons c w ih =>
    have hc : x ≠ c := fun he => h (he ▸ List.mem_cons_self)
    have hw := ih fun hmem => h (List.mem_cons_of_mem c hmem)
    simp only [List.append_assoc, List.cons_append, List.nil_append] at hw ⊢
    simp [firstOcc, hc, hw]

/-- A token has no separator in it. -/
theorem Splits.notMem (h : Splits [x] s ts r) {t : List α} (ht : t ∈ ts) : x ∉ t := by
  induction h with
  | rest _ => cases ht
  | token hp _ ih =>
    rcases List.mem_cons.1 ht with rfl | ht
    · exact (firstOcc_single_some hp).2
    · exact ih ht

/-- Tokens with no separator in them are cut where they were joined. -/
theorem Splits.of_join_single (hts : ∀ t ∈ ts, x ∉ t) (hr : x ∉ r) :
    Splits [x] (ts.flatMap (· ++ [x]) ++ r) ts r := by
  refine Splits.of_join ?_ (firstOcc_eq_none.1 (firstOcc_single_none.2 hr))
  intro t ht
  have hfirst := firstOcc_single (z := []) (hts t ht)
  rw [List.append_nil] at hfirst
  exact firstOcc_eq_some.1 hfirst

/-- There are as many tokens as separators. -/
theorem Splits.length_eq_count (h : Splits [x] s ts r) : ts.length = s.count x := by
  induction h with
  | rest h => simpa using (List.count_eq_zero.2 (firstOcc_single_none.1 h)).symm
  | @token s r ts p h _ ih =>
    obtain ⟨hs, hx⟩ := firstOcc_single_some h
    rw [hs, List.count_append, List.count_cons_self, List.count_eq_zero.2 hx]
    simpa using ih

/-- Input without a separator finishes no token. -/
theorem Splits.append_free (h : Splits [x] s ts r) (hb : x ∉ b) :
    Splits [x] (s ++ b) ts (r ++ b) := by
  have hr : x ∉ r := firstOcc_single_none.1 h.unfinished
  have hrest : Splits [x] (r ++ b) [] (r ++ b) :=
    .rest (firstOcc_single_none.2 (by simp [hr, hb]))
  simpa using h.append hrest

/-- A separator behind an element `n` makes a token that contains `n`. -/
theorem Splits.free_of_tokens (hn : n ≠ x) (h : Splits [x] (w ++ n :: z) ts r)
    (hts : ∀ t ∈ ts, n ∉ t) : x ∉ z := by
  intro hz
  obtain ⟨ts1, r1, h1⟩ := Splits.total (List.cons_ne_nil x []) w
  obtain ⟨ts2, r2, h2⟩ := Splits.total (List.cons_ne_nil x []) (r1 ++ n :: z)
  obtain ⟨rfl, -⟩ := h.unique (h1.append h2)
  have hr1 : x ∉ r1 := firstOcc_single_none.1 h1.unfinished
  cases h2 with
  | rest hnone => exact firstOcc_single_none.1 hnone (by simp [hz])
  | @token _ _ ts2 p hp hrest =>
    obtain ⟨hsplit, hfree⟩ := firstOcc_single_some hp
    apply hts _ (List.mem_append_right _ List.mem_cons_self)
    -- the first token reaches past `r1` and `n`, which hold no separator
    have hlen : r1.length < p := by
      by_contra hle
      have hx : (r1 ++ n :: z)[p]? = some x := by
        rw [hsplit]
        have hpl : ((r1 ++ n :: z).take p).length = p := by
          have hb := firstOcc_bound hp
          simp only [List.length_append, List.length_cons, List.length_nil] at hb
          rw [List.length_take, List.length_append, List.length_cons]
          omega
        rw [List.getElem?_append_right (by omega), hpl]
        simp
      rcases Nat.lt_or_eq_of_le (Nat.le_of_not_lt hle) with hlt | heq
      · rw [List.getElem?_append_left hlt] at hx
        exact hr1 (List.mem_of_getElem? hx)
      · rw [heq, List.getElem?_append_right le_rfl] at hx
        exact hn (by simpa using hx)
    rw [List.take_append, List.mem_append]
    right
    obtain ⟨m, hm⟩ : ∃ m, p - r1.length = m + 1 := ⟨p - r1.length - 1, by omega⟩
    simp [hm]

end Single

end SystemCallLearn.Lib
