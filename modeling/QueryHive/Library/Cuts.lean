import Mathlib.Data.List.Infix

/-! Cutting a list into pieces of one length. The pieces follow each other, none is longer
than the step, and together they are the list. -/
namespace QueryHive.Library.Cuts

universe u
variable {α : Type u}

/-- The pieces that start at every multiple of `step`. -/
def pieces (step : Nat) (items : List α) : List (List α) :=
  (List.range' 0 ((items.length + step - 1) / step) step).map fun offset => (items.drop offset).take step

theorem flatten_pieces_from (items : List α) (step start count : Nat) :
    ((List.range' start count step).map fun offset => (items.drop offset).take step).flatten =
      (items.drop start).take (count * step) := by
  induction count generalizing start with
  | zero => simp
  | succ count ih =>
    rw [List.range'_succ, List.map_cons, List.flatten_cons, ih, Nat.succ_mul, Nat.add_comm (count * step),
      List.take_add, List.drop_drop]

@[simp] theorem flatten_pieces (items : List α) (positive : 0 < step) : (pieces step items).flatten = items := by
  rw [pieces, flatten_pieces_from, List.drop_zero]
  apply List.take_of_length_le
  have quotient := Nat.div_add_mod (items.length + step - 1) step
  have rest := Nat.mod_lt (items.length + step - 1) positive
  rw [Nat.mul_comm]
  omega

theorem length_of_mem_pieces (items : List α) (member : piece ∈ pieces step items) : piece.length ≤ step := by
  obtain ⟨offset, _, rfl⟩ := List.mem_map.mp member
  exact List.length_take_le _ _

end QueryHive.Library.Cuts
