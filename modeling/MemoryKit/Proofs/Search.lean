/-!
# Searches by offset

A search walks the offsets of a byte string from the left and stops at the first one with an answer.
What it finds is described here apart from the walk: an answer at one offset and none before it.
-/

namespace MemoryKit

variable {α : Type}

/-- The answer at `p` is `a`, and no smaller offset has an answer. -/
structure FirstAt (answer : Nat → Option α) (p : Nat) (a : α) : Prop where
  found : answer p = some a
  before : ∀ q < p, answer q = none

namespace FirstAt

variable {answer other : Nat → Option α} {p q : Nat} {a b : α}

theorem le (h : FirstAt answer p a) (hq : answer q ≠ none) : p ≤ q := by
  rcases Nat.lt_or_ge q p with hlt | hge
  · exact absurd (h.before q hlt) hq
  · exact hge

theorem unique (h : FirstAt answer p a) (h' : FirstAt answer q b) : p = q ∧ a = b := by
  have hpq : p = q := by
    apply Nat.le_antisymm
    · exact h.le (by rw [h'.found]; exact Option.some_ne_none b)
    · exact h'.le (by rw [h.found]; exact Option.some_ne_none a)
  subst hpq
  exact ⟨rfl, Option.some.inj (h.found.symm.trans h'.found)⟩

/-- Two searches that agree up to an offset agree on a first answer there. -/
theorem congr (h : FirstAt answer p a) (heq : ∀ q ≤ p, answer q = other q) :
    FirstAt other p a where
  found := by rw [← heq p (Nat.le_refl p)]; exact h.found
  before q hq := by rw [← heq q (Nat.le_of_lt hq)]; exact h.before q hq

end FirstAt

/-- The first answer stands before all others. -/
theorem firstAt_iff_le {answer : Nat → Option α} {p : Nat} {a : α} :
    FirstAt answer p a ↔ answer p = some a ∧ ∀ q b, answer q = some b → p ≤ q := by
  constructor
  · intro h
    exact ⟨h.found, fun q b hq => h.le (by rw [hq]; exact Option.some_ne_none b)⟩
  · intro h
    refine ⟨h.1, fun q hq => ?_⟩
    rw [Option.eq_none_iff_forall_ne_some]
    intro b hb
    have := h.2 q b hb
    omega

/-- Where there is an answer at all, there is a first one. -/
theorem exists_firstAt {answer : Nat → Option α} {p : Nat} {a : α} (hp : answer p = some a) :
    ∃ q b, FirstAt answer q b := by
  induction p using Nat.strongRecOn generalizing a with
  | ind p ih =>
    by_cases hsmaller : ∃ q < p, ∃ b, answer q = some b
    · obtain ⟨q, hq, b, hb⟩ := hsmaller
      exact ih q hq hb
    · refine ⟨p, a, hp, fun q hq => ?_⟩
      rw [Option.eq_none_iff_forall_ne_some]
      exact fun b hb => hsmaller ⟨q, hq, b, hb⟩

/-- A search without answers before offset `n` is a search that begins there. -/
theorem firstAt_add_iff {answer other : Nat → Option α} {n p : Nat} {a : α}
    (hnone : ∀ q < n, answer q = none) (hshift : ∀ q, answer (n + q) = other q) :
    FirstAt answer (n + p) a ↔ FirstAt other p a := by
  constructor
  · intro h
    refine ⟨by rw [← hshift]; exact h.found, fun q hq => ?_⟩
    rw [← hshift]
    exact h.before (n + q) (by omega)
  · intro h
    refine ⟨by rw [hshift]; exact h.found, fun q hq => ?_⟩
    rcases Nat.lt_or_ge q n with hlt | hge
    · exact hnone q hlt
    · obtain ⟨k, rfl⟩ := Nat.exists_eq_add_of_le hge
      rw [hshift]
      exact h.before k (by omega)

/-- The last element before an offset. -/
theorem getLast?_take_eq_getElem? {l : List α} {p : Nat} (hpos : 0 < p) (hp : p ≤ l.length) :
    (l.take p).getLast? = l[p - 1]? := by
  have hlt : p - 1 < l.length := by omega
  rw [List.getLast?_take, if_neg (by omega), List.getElem?_eq_getElem hlt, Option.some_or]

end MemoryKit
