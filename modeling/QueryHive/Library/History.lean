import Mathlib.Data.List.Basic

/-! Histories, newest entry last. A property of a whole history is often a property of
each entry and the entries before it; such a property is kept by adding an entry that
has it. -/
namespace QueryHive.Library.History

universe u
variable {α : Type u} {P Q : List α → α → Prop} {history : List α} {last : α}

/-- Every entry is in its place, given the entries before it. -/
def Each (P : List α → α → Prop) (history : List α) : Prop :=
  ∀ before now after, history = before ++ now :: after → P before now

theorem each_nil : Each P [] := by
  intro before now after split
  cases before <;> cases split

theorem Each.concat (each : Each P history) (placed : P history last) : Each P (history ++ [last]) := by
  intro before now after split
  obtain rfl | ⟨rest, final, rfl⟩ := List.eq_nil_or_concat' after
  · obtain ⟨same, entry⟩ := List.append_inj' split rfl
    cases entry
    rw [← same]
    exact placed
  · have shape : history ++ [last] = (before ++ now :: rest) ++ [final] := by rw [split]; simp
    exact each before now rest (List.append_inj' shape rfl).1

end QueryHive.Library.History
