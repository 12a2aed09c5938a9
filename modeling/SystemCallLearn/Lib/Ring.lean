import Mathlib.Data.List.Basic
import Mathlib.Data.Nat.ModEq
import Mathlib.Logic.Function.Basic

/-!
# Ring buffers by absolute position

A ring of `cap` slots stores the value of absolute position `n` in slot `n % cap`. Positions never
wrap, only slots do, so a ring that holds the positions `lo, lo + 1, …` is described by `lo` and
the list of the values held. Which slots hold a value that has not been read yet is described by the
two positions `lo` and `hi` between which those values stand.
-/

namespace SystemCallLearn.Lib.Ring

variable {T : Type*} {cap lo hi : Nat} {buf items : List T} {unread : Nat → Bool}

/-- `buf` holds `items` at the absolute positions from `lo` on. -/
def Holds (cap : Nat) (buf : List T) (lo : Nat) (items : List T) : Prop :=
  ∀ k, k < items.length → buf[(lo + k) % cap]? = items[k]?

/-- `unread` marks the slots of the positions from `lo` up to `hi`. -/
def Unread (cap lo hi : Nat) (unread : Nat → Bool) : Prop :=
  ∀ k, unread k = true ↔ ∃ n, lo ≤ n ∧ n < hi ∧ n % cap = k

/-- Two positions less than a full turn apart have different slots. -/
theorem slot_ne {i j : Nat} (hij : i < j) (hj : j < i + cap) : i % cap ≠ j % cap := by
  intro he
  have hdvd : cap ∣ j - i := (Nat.modEq_iff_dvd' hij.le).1 he
  have hle : cap ≤ j - i := Nat.le_of_dvd (by omega) hdvd
  omega

theorem holds_nil (buf : List T) : Holds cap buf lo [] := by
  intro k hk
  simp at hk

/-- Storing behind the last value held keeps what is held, as long as a slot is free. -/
theorem Holds.store {v : T} (h : Holds cap buf lo items) (hfree : items.length < cap)
    (hlen : buf.length = cap) :
    Holds cap (buf.set ((lo + items.length) % cap) v) lo (items ++ [v]) := by
  intro k hk
  have hcap : 0 < cap := by omega
  rw [List.length_append, List.length_singleton] at hk
  by_cases hkn : k = items.length
  · subst hkn
    have hslot : (lo + items.length) % cap < buf.length := by
      rw [hlen]
      exact Nat.mod_lt _ hcap
    rw [List.getElem?_set_self hslot]
    simp
  · have hne : (lo + items.length) % cap ≠ (lo + k) % cap :=
      (slot_ne (by omega) (by omega)).symm
    rw [List.getElem?_set_ne hne, h k (by omega), List.getElem?_append_left (by omega)]

/-- The slot of the first position holds the first value, and the rest is held from the next
    position on. -/
theorem Holds.load {v : T} {rest : List T} (h : Holds cap buf lo (v :: rest)) :
    buf[lo % cap]? = some v ∧ Holds cap buf (lo + 1) rest := by
  constructor
  · simpa using h 0 (by simp)
  · intro k hk
    have hk' := h (k + 1) (by simpa using hk)
    rw [show lo + 1 + k = lo + (k + 1) by omega]
    simpa using hk'

/-! ## The unread slots -/

theorem unread_nil : Unread cap lo lo fun _ => false := by
  intro k
  simp only [Bool.false_eq_true, false_iff]
  rintro ⟨n, h1, h2, -⟩
  omega

/-- The next slot to be stored into is read, as long as a slot is free. -/
theorem Unread.free (h : Unread cap lo hi unread) (hfree : hi < lo + cap) :
    unread (hi % cap) = false := by
  rw [← Bool.not_eq_true, h]
  rintro ⟨n, h1, h2, h3⟩
  exact slot_ne h2 (by omega) h3

/-- The next slot to be loaded from is unread, as long as a value waits. -/
theorem Unread.waits (h : Unread cap lo hi unread) (hlt : lo < hi) : unread (lo % cap) = true :=
  (h _).2 ⟨lo, le_rfl, hlt, rfl⟩

theorem Unread.store (h : Unread cap lo hi unread) (hle : lo ≤ hi) :
    Unread cap lo (hi + 1) (Function.update unread (hi % cap) true) := by
  intro k
  by_cases hk : k = hi % cap
  · subst hk
    rw [Function.update_self]
    exact ⟨fun _ => ⟨hi, hle, Nat.lt_succ_self hi, rfl⟩, fun _ => rfl⟩
  · rw [Function.update_of_ne hk, h]
    constructor
    · rintro ⟨n, h1, h2, h3⟩
      exact ⟨n, h1, by omega, h3⟩
    · rintro ⟨n, h1, h2, h3⟩
      have hn : n ≠ hi := fun he => hk (by rw [← h3, he])
      exact ⟨n, h1, by omega, h3⟩

/-- Loading the first value: the positions still unread are less than a turn past it. -/
theorem Unread.load (h : Unread cap lo hi unread) (hturn : hi ≤ lo + cap) :
    Unread cap (lo + 1) hi (Function.update unread (lo % cap) false) := by
  intro k
  by_cases hk : k = lo % cap
  · subst hk
    rw [Function.update_self]
    simp only [Bool.false_eq_true, false_iff]
    rintro ⟨n, h1, h2, h3⟩
    exact slot_ne (i := lo) (by omega) (by omega) h3.symm
  · rw [Function.update_of_ne hk, h]
    constructor
    · rintro ⟨n, h1, h2, h3⟩
      have hn : n ≠ lo := fun he => hk (by rw [← h3, he])
      exact ⟨n, by omega, h2, h3⟩
    · rintro ⟨n, h1, h2, h3⟩
      exact ⟨n, by omega, h2, h3⟩

end SystemCallLearn.Lib.Ring
