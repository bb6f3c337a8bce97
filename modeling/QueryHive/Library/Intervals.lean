import Mathlib.Order.Interval.Set.LinearOrder

/-! Lists of half-open intervals of a linear order, as the sets they cover. Intervals that are in order meet at their
ends at most; intervals that are apart do not meet at all. -/
namespace QueryHive.Library.Intervals

universe u
variable {α : Type u} [LinearOrder α] {list front rest : List (α × α)} {interval : α × α} {x : α}

def cover (list : List (α × α)) : Set α := {x | ∃ interval ∈ list, x ∈ Set.Ico interval.1 interval.2}

@[simp] theorem cover_nil : cover ([] : List (α × α)) = ∅ := by simp [cover]

@[simp] theorem cover_cons (interval : α × α) (list : List (α × α)) :
    cover (interval :: list) = Set.Ico interval.1 interval.2 ∪ cover list := by
  ext x
  simp [cover]

@[simp] theorem cover_append (front rest : List (α × α)) : cover (front ++ rest) = cover front ∪ cover rest := by
  ext x
  simp [cover, or_and_right, exists_or]

theorem mem_cover_flatMap {pieces : α × α → List (α × α)} :
    x ∈ cover (list.flatMap pieces) ↔ ∃ interval ∈ list, x ∈ cover (pieces interval) := by
  simp only [cover, List.mem_flatMap, Set.mem_ofPred_eq]
  grind

/-- Intervals that are not empty, each behind the one before it. -/
structure Ordered (list : List (α × α)) : Prop where
  proper : ∀ interval ∈ list, interval.1 < interval.2
  sorted : list.Pairwise (·.2 ≤ ·.1)

/-- No two of the intervals touch. -/
def Apart (list : List (α × α)) : Prop := list.Pairwise (·.2 < ·.1)

theorem ordered_nil : Ordered ([] : List (α × α)) := ⟨nofun, List.Pairwise.nil⟩

theorem ordered_cons : Ordered (interval :: list) ↔
    (interval.1 < interval.2 ∧ ∀ later ∈ list, interval.2 ≤ later.1) ∧ Ordered list := by
  constructor
  · rintro ⟨proper, sorted⟩
    obtain ⟨own, proper⟩ := List.forall_mem_cons.mp proper
    obtain ⟨first, sorted⟩ := List.pairwise_cons.mp sorted
    exact ⟨⟨own, first⟩, proper, sorted⟩
  · rintro ⟨⟨own, first⟩, proper, sorted⟩
    exact ⟨List.forall_mem_cons.mpr ⟨own, proper⟩, List.pairwise_cons.mpr ⟨first, sorted⟩⟩

theorem Ordered.sublist (ordered : Ordered list) (part : front.Sublist list) : Ordered front :=
  ⟨fun interval inside => ordered.proper interval (part.subset inside), ordered.sorted.sublist part⟩

theorem Ordered.behind (ordered : Ordered (interval :: list)) (inside : x ∈ cover list) : interval.2 ≤ x := by
  obtain ⟨later, member, within⟩ := inside
  exact le_trans ((ordered_cons.mp ordered).1.2 later member) within.1

theorem apart_ordered (proper : ∀ interval ∈ list, interval.1 < interval.2) (apart : Apart list) : Ordered list :=
  ⟨proper, apart.imp le_of_lt⟩

end QueryHive.Library.Intervals
