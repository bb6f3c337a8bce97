import Mathlib.Data.List.Lex

/-! Lists compared at the first place where they differ. Whatever follows that place does not
change the order, so a key may be cut into parts that are compared one after another. -/
namespace QueryHive.Library.Lexical

variable {α β : Type} [LT α] [LT β]

/-- The first place where the lists differ, with the smaller item in the first. -/
def Below (first second : List α) : Prop :=
  ∃ before x y rest other, first = before ++ x :: rest ∧ second = before ++ y :: other ∧ x < y

variable {first second : List α}

theorem below_head {x y : α} (less : x < y) (rest other : List α) : Below (x :: rest) (y :: other) :=
  ⟨[], x, y, rest, other, rfl, rfl, less⟩

/-- A common beginning does not matter. -/
theorem Below.behind (below : Below first second) (before : List α) : Below (before ++ first) (before ++ second) := by
  obtain ⟨shared, x, y, rest, other, rfl, rfl, less⟩ := below
  exact ⟨before ++ shared, x, y, rest, other, (List.append_assoc ..).symm, (List.append_assoc ..).symm, less⟩

theorem Below.append (below : Below first second) (after after' : List α) :
    Below (first ++ after) (second ++ after') := by
  obtain ⟨shared, x, y, rest, other, rfl, rfl, less⟩ := below
  exact ⟨shared, x, y, rest ++ after, other ++ after', List.append_assoc .., List.append_assoc .., less⟩

theorem Below.lt (below : Below first second) : first < second := by
  obtain ⟨shared, x, y, rest, other, rfl, rfl, less⟩ := below
  exact List.append_left_lt (List.Lex.rel less)

theorem below_or_proper (less : first < second) : Below first second ∨ ∃ x rest, second = first ++ x :: rest := by
  induction (less : List.Lex (· < ·) first second) with
  | nil => exact .inr ⟨_, _, rfl⟩
  | rel head => exact .inl (below_head head _ _)
  | cons _ ih =>
    rcases ih with below | ⟨x, rest, rfl⟩
    · exact .inl (below.behind [_])
    · exact .inr ⟨x, rest, rfl⟩

theorem Below.map {f : α → β} (kept : ∀ x ∈ first, ∀ y ∈ second, x < y → f x < f y) (below : Below first second) :
    Below (first.map f) (second.map f) := by
  obtain ⟨shared, x, y, rest, other, rfl, rfl, less⟩ := below
  refine ⟨shared.map f, f x, f y, rest.map f, other.map f, by simp, by simp, ?_⟩
  exact kept x (by simp) y (by simp) less

end QueryHive.Library.Lexical
