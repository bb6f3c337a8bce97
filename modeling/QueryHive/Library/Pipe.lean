import Mathlib.Data.List.Basic

/-! Reads that give less than was asked for. A loop that reads until it has so many entries, or there are no more, gets
the same entries however the reads cut them. -/
namespace QueryHive.Library.Pipe

universe u
variable {α : Type u}

/-- What the pipe does at one read: it is interrupted, it fails, or it gives entries, at least one while there are
any and at most one more than so many. -/
inductive Turn where
  | interrupted
  | failed
  | gives (more : Nat)
  deriving DecidableEq, Repr

/-- Read until there are so many entries or no more. After the turns each read gives all that is asked for. The
result is what was read, what is left and the turns that are left, or none when a read failed. -/
def fill (content : List α) : List Turn → Nat → Option (List α × List α × List Turn)
  | turns, 0 => some ([], content, turns)
  | [], need + 1 => some (content.take (need + 1), content.drop (need + 1), [])
  | .interrupted :: turns, need + 1 => fill content turns (need + 1)
  | .failed :: _, _ + 1 => none
  | .gives more :: turns, need + 1 =>
    match content with
    | [] => some ([], [], turns)
    | entry :: content =>
      let here := min more need
      (fill (content.drop here) turns (need - here)).map fun (got, rest) => (entry :: content.take here ++ got, rest)

/-- Whatever the turns are, a read fails by one of them, or it takes the front of what was there and leaves the rest. -/
theorem fill_cases (content : List α) (turns : List Turn) (need : Nat) :
    (Turn.failed ∈ turns ∧ fill content turns need = none) ∨
      ∃ later, later ⊆ turns ∧ fill content turns need = some (content.take need, content.drop need, later) := by
  fun_induction fill content turns need with
  | case1 content turns => exact .inr ⟨turns, List.Subset.refl _, rfl⟩
  | case2 => exact .inr ⟨[], List.Subset.refl _, rfl⟩
  | case3 content turns need ih =>
    rcases ih with ⟨fails, none'⟩ | ⟨later, within, read⟩
    · exact .inl ⟨List.mem_cons_of_mem _ fails, none'⟩
    · exact .inr ⟨later, List.subset_cons_of_subset _ within, read⟩
  | case4 => exact .inl ⟨List.mem_cons_self, rfl⟩
  | case5 more turns need => exact .inr ⟨turns, List.subset_cons_self _ _, rfl⟩
  | case6 more turns need entry content here ih =>
    rcases ih with ⟨fails, none'⟩ | ⟨later, within, read⟩
    · exact .inl ⟨List.mem_cons_of_mem _ fails, by rw [none', Option.map_none]⟩
    · refine .inr ⟨later, List.subset_cons_of_subset _ within, ?_⟩
      have short : here ≤ need := Nat.min_le_right ..
      rw [read, Option.map_some]
      dsimp only
      rw [List.cons_append, ← List.take_add, List.drop_drop, Nat.add_sub_cancel' short]
      rfl

theorem fill_front {content got rest : List α} (read : fill content turns need = some (got, rest, later)) :
    got = content.take need ∧ rest = content.drop need ∧ later ⊆ turns := by
  rcases fill_cases content turns need with ⟨_, none'⟩ | ⟨later, within, same⟩
  · rw [none'] at read
    cases read
  · rw [same] at read
    cases read
    exact ⟨rfl, rfl, within⟩

theorem fill_none {content : List α} (read : fill content turns need = none) : Turn.failed ∈ turns := by
  rcases fill_cases content turns need with ⟨fails, _⟩ | ⟨later, _, same⟩
  · exact fails
  · rw [same] at read
    cases read

end QueryHive.Library.Pipe
