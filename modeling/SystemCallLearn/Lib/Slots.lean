import Mathlib.Data.List.Nodup
import Mathlib.Data.Set.Insert

/-!
# Tables of slots

A table is a list of slots; `key` gives the key of the element in a slot, or `none` for an empty
slot. A table holds a set of keys when each key of the set is in exactly one slot and the other
slots are empty (`Holds`). Filling an empty slot adds a key to the set, emptying a slot removes one.
-/

namespace SystemCallLearn.Lib.Slots

variable {α κ : Type*} {key : α → Option κ} {l : List α} {i j : Nat} {a b : α} {k : κ} {s : Set κ}

/-- The keys in the table, in the order of the slots. -/
def held (key : α → Option κ) (l : List α) : List κ := l.filterMap key

/-- The table holds the keys of `s`, each in one slot. -/
structure Holds (key : α → Option κ) (l : List α) (s : Set κ) : Prop where
  nodup : (held key l).Nodup
  mem : ∀ k, k ∈ held key l ↔ k ∈ s

theorem mem_held : k ∈ held key l ↔ ∃ (i : Nat) (a : α), l[i]? = some a ∧ key a = some k := by
  rw [held, List.mem_filterMap]
  constructor
  · rintro ⟨a, ha, hk⟩
    obtain ⟨i, hi⟩ := List.mem_iff_getElem?.1 ha
    exact ⟨i, a, hi, hk⟩
  · rintro ⟨i, a, hi, hk⟩
    exact ⟨a, List.mem_of_getElem? hi, hk⟩

/-- Writing a slot exchanges the key that was there for the new one. -/
theorem held_set (h : l[i]? = some b) :
    ((key b).toList ++ held key (l.set i a)).Perm ((key a).toList ++ held key l) := by
  induction l generalizing i with
  | nil => simp at h
  | cons c l ih =>
    cases i with
    | zero =>
      obtain rfl : c = b := by simpa using h
      simp only [List.set_cons_zero, held, List.filterMap_cons]
      cases key a <;> cases key c <;> simp [List.Perm.swap]
    | succ i =>
      have hi := ih (i := i) (by simpa using h)
      simp only [List.set_cons_succ, held, List.filterMap_cons] at hi ⊢
      cases hc : key c with
      | none => exact hi
      | some k =>
        apply List.perm_middle.trans
        exact (hi.cons k).trans List.perm_middle.symm

/-- Two slots with the same key are the same slot. -/
theorem index_unique (h : (held key l).Nodup) (hi : l[i]? = some a) (hj : l[j]? = some b)
    (ha : key a = some k) (hb : key b = some k) : i = j := by
  induction l generalizing i j with
  | nil => simp at hi
  | cons c l ih =>
    have htail : (held key l).Nodup := by
      rw [held, List.filterMap_cons] at h
      cases hc : key c with
      | none =>
        rw [hc] at h
        exact h
      | some k' =>
        rw [hc] at h
        exact (List.nodup_cons.1 h).2
    -- the key of the first slot is in no later one
    have hhead : ∀ {n : Nat} {d : α}, key c = some k → l[n]? = some d → key d ≠ some k := by
      intro n d hc hn hd
      rw [held, List.filterMap_cons, hc] at h
      exact (List.nodup_cons.1 h).1 (mem_held.2 ⟨n, d, hn, hd⟩)
    cases i with
    | zero =>
      obtain rfl : c = a := by simpa using hi
      cases j with
      | zero => rfl
      | succ j => exact absurd hb (hhead ha (by simpa using hj))
    | succ i =>
      cases j with
      | zero =>
        obtain rfl : c = b := by simpa using hj
        exact absurd ha (hhead hb (by simpa using hi))
      | succ j => exact congrArg (· + 1) (ih htail (by simpa using hi) (by simpa using hj))

theorem holds_empty (h : ∀ a ∈ l, key a = none) : Holds key l ∅ := by
  have hnil : held key l = [] := List.filterMap_eq_nil_iff.2 h
  constructor
  · rw [hnil]
    exact List.nodup_nil
  · intro k
    rw [hnil]
    simp

theorem Holds.existsUnique (h : Holds key l s) (hk : k ∈ s) :
    ∃! i : Nat, ∃ a, l[i]? = some a ∧ key a = some k := by
  obtain ⟨i, a, hi, ha⟩ := mem_held.1 ((h.mem k).2 hk)
  refine ⟨i, ⟨a, hi, ha⟩, ?_⟩
  rintro j ⟨b, hj, hb⟩
  exact index_unique h.nodup hj hi hb ha

theorem Holds.mem_of_slot (h : Holds key l s) (hi : l[i]? = some a) (ha : key a = some k) : k ∈ s :=
  (h.mem k).1 (mem_held.2 ⟨i, a, hi, ha⟩)

/-- An empty slot is filled with a new key. -/
theorem Holds.fill (h : Holds key l s) (hi : l[i]? = some b) (hb : key b = none)
    (ha : key a = some k) (hk : k ∉ s) : Holds key (l.set i a) (insert k s) := by
  have hset : ((key b).toList ++ held key (l.set i a)).Perm ((key a).toList ++ held key l) :=
    held_set hi
  have hperm : (held key (l.set i a)).Perm (k :: held key l) := by rwa [hb, ha] at hset
  constructor
  · rw [hperm.nodup_iff, List.nodup_cons]
    exact ⟨fun hmem => hk ((h.mem k).1 hmem), h.nodup⟩
  · intro k'
    rw [hperm.mem_iff, List.mem_cons, h.mem]
    exact Iff.rfl

/-- A slot is emptied. -/
theorem Holds.clear (h : Holds key l s) (hi : l[i]? = some b) (hb : key b = some k)
    (ha : key a = none) : Holds key (l.set i a) (s \ {k}) := by
  have hset : ((key b).toList ++ held key (l.set i a)).Perm ((key a).toList ++ held key l) :=
    held_set hi
  have hperm : (k :: held key (l.set i a)).Perm (held key l) := by rwa [hb, ha] at hset
  have hnodup := hperm.nodup_iff.2 h.nodup
  rw [List.nodup_cons] at hnodup
  refine ⟨hnodup.2, ?_⟩
  intro k'
  rw [Set.mem_sdiff, Set.mem_singleton_iff, ← h.mem, ← hperm.mem_iff, List.mem_cons]
  constructor
  · intro hk'
    refine ⟨.inr hk', ?_⟩
    rintro rfl
    exact hnodup.1 hk'
  · rintro ⟨hk', hne⟩
    exact hk'.resolve_left hne

/-- A slot is written without changing its key. -/
theorem Holds.keep (h : Holds key l s) (hi : l[i]? = some b) (ha : key a = key b) :
    Holds key (l.set i a) s := by
  have hset : ((key b).toList ++ held key (l.set i a)).Perm ((key a).toList ++ held key l) :=
    held_set hi
  have hperm : (held key (l.set i a)).Perm (held key l) := by
    rw [ha] at hset
    exact (List.perm_append_left_iff _).1 hset
  exact ⟨hperm.nodup_iff.2 h.nodup, fun k' => hperm.mem_iff.trans (h.mem k')⟩

/-- Tables with the same keys in the same slots hold the same. -/
theorem Holds.of_keys {l' : List α} (h : Holds key l s) (hkeys : l'.map key = l.map key) :
    Holds key l' s := by
  have hheld : held key l' = held key l := by
    have hid : ∀ l : List α, held key l = (l.map key).filterMap id := fun l => by
      rw [List.filterMap_map]
      rfl
    rw [hid, hid, hkeys]
  constructor
  · rw [hheld]
    exact h.nodup
  · intro k
    rw [hheld]
    exact h.mem k

theorem Holds.congr {t : Set κ} (h : Holds key l s) (hst : ∀ k, k ∈ t ↔ k ∈ s) : Holds key l t :=
  ⟨h.nodup, fun k => (h.mem k).trans (hst k).symm⟩

end SystemCallLearn.Lib.Slots
