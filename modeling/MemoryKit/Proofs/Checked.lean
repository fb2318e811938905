import MemoryKit.Bytes

/-!
# Computations that may fault

A slice, an index, a key or a difference can be out of range, and a loop can take more rounds than it
may. Here each of them ends the computation with a fault, so a computation that is equal to a pure
one has met none of them. A loop is given by its rounds, and it ends with the answer that every round
keeps.
-/

namespace MemoryKit

/-! ## 1. Faults -/

inductive Fault where
  | slice
  | index
  | key
  /-- A difference below zero. -/
  | subtraction
  /-- Windows without any bytes. -/
  | window
  /-- More rounds of a loop than it may take. -/
  | rounds
  deriving DecidableEq, Repr

/-- A computation that answers or faults. -/
abbrev Checked : Type → Type :=
  Except Fault

namespace Checked

variable {σ α : Type} {s needle : Bytes} {start stop m n : Nat}

def orFault (fault : Fault) : Option α → Checked α
  | some a => pure a
  | none => throw fault

def slice (s : Bytes) (start stop : Nat) : Checked Bytes :=
  if start ≤ stop ∧ stop ≤ s.length then pure (s.extract start stop) else throw .slice

def tail (s : Bytes) (start : Nat) : Checked Bytes :=
  slice s start s.length

def sub (m n : Nat) : Checked Nat :=
  if n ≤ m then pure (m - n) else throw .subtraction

/-- A slice within bounds does not fail. -/
theorem slice_eq (hle : start ≤ stop) (hstop : stop ≤ s.length) :
    slice s start stop = pure (s.extract start stop) :=
  if_pos ⟨hle, hstop⟩

theorem tail_eq (h : start ≤ s.length) : tail s start = pure (s.drop start) := by
  rw [tail, slice_eq h (Nat.le_refl _), List.extract_eq_take_drop, ← List.length_drop,
    List.take_length]

theorem sub_eq (h : n ≤ m) : sub m n = pure (m - n) :=
  if_pos h

/-- A slice cannot end before it starts, even inside the bytes. -/
example : slice [0x2F, 0x2A] 2 1 = throw .slice := rfl

/-! ## 2. Loops -/

inductive Round (σ α : Type) where
  | again (state : σ)
  | done (answer : α)

/-- The rounds from a state on, at most as many as the limit says. -/
def loop (round : σ → Checked (Round σ α)) : (limit : Nat) → σ → Checked α
  | 0, _ => throw .rounds
  | limit + 1, state => do
    match ← round state with
    | .again next => loop round limit next
    | .done answer => return answer

/-- A round from a state ends the loop with the answer that belongs to the state, or goes on with a
smaller state that has the same answer. -/
inductive Keeps (Invariant : σ → Prop) (size : σ → Nat) (answer : σ → α) (state : σ)
    (round : Checked (Round σ α)) : Prop
  | done : round = pure (.done (answer state)) → Keeps Invariant size answer state round
  | again (next : σ) : round = pure (.again next) → Invariant next → size next < size state →
      answer next = answer state → Keeps Invariant size answer state round

/-- A loop whose rounds keep an invariant and make the size smaller reaches its answer within any
limit above the size. -/
theorem loop_eq {Invariant : σ → Prop} {size : σ → Nat} {answer : σ → α}
    {round : σ → Checked (Round σ α)}
    (hround : ∀ state, Invariant state → Keeps Invariant size answer state (round state))
    {limit : Nat} {state : σ} (hlimit : size state < limit) (h : Invariant state) :
    loop round limit state = pure (answer state) := by
  -- the size of the state falls with the limit
  induction limit generalizing state with
  | zero => exact absurd hlimit (Nat.not_lt_zero _)
  | succ limit ih =>
    rw [loop]
    cases hround state h with
    | done hdone => rw [hdone, pure_bind]
    | again next hnext hinvariant hlt hanswer =>
      rw [hnext, pure_bind]
      simp only
      rw [ih (by omega) hinvariant, hanswer]

/-! ## 3. Searches -/

def windows (s : Bytes) (size : Nat) : Checked (List Bytes) :=
  if size = 0 then throw .window
  else pure ((List.range (s.length + 1 - size)).map fun start => s.extract start (start + size))

/-- The first place of a needle; an empty needle has none. -/
def find (s needle : Bytes) : Checked (Option Nat) := do
  if needle.isEmpty || s.length < needle.length then return none
  return (← windows s needle.length).findIdx? (· == needle)

inductive Finds (needle s : Bytes) : Option Nat → Prop
  | nowhere : (∀ p, ¬needle <+: s.drop p) → Finds needle s none
  | first {p : Nat} : needle <+: s.drop p → (∀ q < p, ¬needle <+: s.drop q) →
      Finds needle s (some p)

theorem length_le_of_isPrefix_drop (h : needle <+: s.drop start) (hne : needle ≠ []) :
    start + needle.length ≤ s.length := by
  have hpos := List.length_pos_iff.2 hne
  have hle := h.length_le
  rw [List.length_drop] at hle
  omega

theorem extract_eq_iff_isPrefix (needle : Bytes) :
    s.extract start (start + needle.length) = needle ↔ needle <+: s.drop start := by
  rw [List.extract_eq_take_drop, Nat.add_sub_cancel_left, List.prefix_iff_eq_take, eq_comm]

theorem find_nil (s : Bytes) : find s [] = pure none :=
  rfl

/-- A search for bytes that are there to be found does not fail and finds the first place. -/
theorem exists_find_eq (s : Bytes) (hne : needle ≠ []) :
    ∃ place, find s needle = pure place ∧ Finds needle s place := by
  have hpos := List.length_pos_iff.2 hne
  have hempty : needle.isEmpty = false := by
    rw [← Bool.not_eq_true, List.isEmpty_iff]
    exact hne
  unfold find
  rw [hempty, Bool.false_or]
  by_cases hshort : s.length < needle.length
  · rw [if_pos (decide_eq_true hshort)]
    refine ⟨none, rfl, .nowhere fun p h => ?_⟩
    have := length_le_of_isPrefix_drop h hne
    omega
  · rw [if_neg (by simpa using hshort), windows, if_neg (Nat.ne_of_gt hpos), pure_bind]
    refine ⟨_, rfl, ?_⟩
    -- the windows are the places where the needle would end in time
    have hplaces (p : Nat) : needle <+: s.drop p ↔
        p < s.length + 1 - needle.length ∧ s.extract p (p + needle.length) = needle := by
      constructor
      · intro h
        have hle := length_le_of_isPrefix_drop h hne
        exact ⟨by omega, (extract_eq_iff_isPrefix needle).2 h⟩
      · exact fun h => (extract_eq_iff_isPrefix needle).1 h.2
    generalize hcount : s.length + 1 - needle.length = count at hplaces
    cases hplace : ((List.range count).map fun p => s.extract p (p + needle.length)).findIdx?
        (· == needle) with
    | none =>
      rw [List.findIdx?_eq_none_iff, List.forall_mem_map] at hplace
      refine .nowhere fun p h => ?_
      obtain ⟨hlt, hextract⟩ := (hplaces p).1 h
      exact beq_eq_false_iff_ne.1 (hplace p (List.mem_range.2 hlt)) hextract
    | some place =>
      obtain ⟨hlt, hfound, hbefore⟩ := List.findIdx?_eq_some_iff_getElem.1 hplace
      simp only [List.getElem_map, List.getElem_range, beq_iff_eq] at hfound hbefore
      rw [List.length_map, List.length_range] at hlt
      refine .first ((hplaces place).2 ⟨hlt, hfound⟩) fun q hq h => ?_
      exact hbefore q hq ((hplaces q).1 h).2

/-! ## 4. Answers that begin with a needle -/

section Answers

variable {answer : Nat → Option α} {p : Nat}

/-- No place before an offset has an answer. -/
structure IsPast (answer : Nat → Option α) (s : Bytes) (start : Nat) : Prop where
  le_length : start ≤ s.length
  before : ∀ q < start, answer q = none

theorem isPast_zero (answer : Nat → Option α) (s : Bytes) : IsPast answer s 0 :=
  ⟨Nat.zero_le _, fun q hq => absurd hq (Nat.not_lt_zero q)⟩

/-- The next place of the needle, with no answer before it. -/
structure IsNext (needle s : Bytes) (answer : Nat → Option α) (start p : Nat) : Prop where
  le : start ≤ p
  isPrefix : needle <+: s.drop p
  before : ∀ q < p, answer q = none

namespace IsNext

variable (hne : needle ≠ []) (h : IsNext needle s answer start p)

include hne h

/-- A place with an answer has room for the needle. -/
theorem length_le : p + needle.length ≤ s.length :=
  length_le_of_isPrefix_drop h.isPrefix hne

theorem lt_length : p < s.length := by
  have hle := h.length_le hne
  have hpos := List.length_pos_iff.2 hne
  omega

theorem isPast_succ (hat : answer p = none) : IsPast answer s (p + 1) where
  le_length := h.lt_length hne
  before q hq := by
    rcases Nat.lt_succ_iff_lt_or_eq.1 hq with hq | rfl
    · exact h.before q hq
    · exact hat

theorem size_lt : s.length - (p + 1) < s.length - start := by
  have hlt := h.lt_length hne
  have hle := h.le
  omega

end IsNext

/-- Where every answer begins with the needle, the places between two of its places have none. -/
theorem find_drop_of_isPast (hne : needle ≠ [])
    (hneedle : ∀ p a, answer p = some a → needle <+: s.drop p) (h : IsPast answer s start) :
    (find (s.drop start) needle = pure none ∧ ∀ p, answer p = none) ∨
      ∃ place, find (s.drop start) needle = pure (some place) ∧
        IsNext needle s answer start (start + place) := by
  obtain ⟨place, hfind, hplace⟩ := exists_find_eq (s.drop start) hne
  have hnone {q : Nat} (hq : start ≤ q → ¬needle <+: (s.drop start).drop (q - start)) :
      answer q = none := by
    rcases Nat.lt_or_ge q start with hlt | hge
    · exact h.before q hlt
    · rw [Option.eq_none_iff_forall_ne_some]
      intro a ha
      refine hq hge ?_
      rw [List.drop_drop, Nat.add_sub_cancel' hge]
      exact hneedle q a ha
  cases hplace with
  | nowhere hno => exact Or.inl ⟨hfind, fun q => hnone fun _ => hno _⟩
  | @first place hfound hno =>
    refine Or.inr ⟨place, hfind, Nat.le_add_right _ _, ?_, fun q hq => ?_⟩
    · rwa [List.drop_drop] at hfound
    · exact hnone fun hge => hno _ (by omega)

end Answers

end Checked

end MemoryKit
