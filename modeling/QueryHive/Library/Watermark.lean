import Mathlib.Data.List.Basic

/-! A reader that follows a growing log. It has output what `scan` gives for a
first part of the log and remembers how long that part is; entries are only ever
added at the end, and catching up outputs what the rest gives. -/
namespace QueryHive.Library.Watermark

universe u v
variable {α : Type u} {β : Type v} {scan : α → List β} {log : List α} {mark : Nat} {out : List β}

/-- The output is exactly what the first `mark` entries give, in order. -/
structure Read (scan : α → List β) (log : List α) (mark : Nat) (out : List β) : Prop where
  within : mark ≤ log.length
  output : out = (log.take mark).flatMap scan

theorem read_nothing : Read scan log 0 [] := ⟨Nat.zero_le _, rfl⟩

theorem read_all : Read scan log log.length (log.flatMap scan) :=
  ⟨Nat.le_refl _, by rw [List.take_length]⟩

theorem read_append (read : Read scan log mark out) (more : List α) : Read scan (log ++ more) mark out where
  within := by
    rw [List.length_append]
    exact Nat.le_add_right_of_le read.within
  output := by rw [List.take_append_of_le_length read.within, read.output]

theorem read_catch_up (read : Read scan log mark out) :
    Read scan log log.length (out ++ (log.drop mark).flatMap scan) where
  within := Nat.le_refl _
  output := by rw [read.output, ← List.flatMap_append, List.take_append_drop, List.take_length]

/-- A first part of the log inherits whatever a relation says between the outputs
of the whole log. -/
theorem read_pairwise (ordered : (log.flatMap scan).Pairwise r) (read : Read scan log mark out) :
    out.Pairwise r := by
  rw [read.output]
  rw [← List.take_append_drop mark log, List.flatMap_append] at ordered
  exact (List.pairwise_append.mp ordered).1

end QueryHive.Library.Watermark
