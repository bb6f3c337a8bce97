import Mathlib.Algebra.Ring.Nat
import Mathlib.Data.List.Basic

/-! Places in a list whose entries have a weight, such as a text measured in bytes. A place is the
weight of what stands before it; positive weights keep the places of one list apart. -/
namespace QueryHive.Library.Weights

universe u
variable {α : Type u} {weight : α → Nat} {list front rest : List α}

def total (weight : α → Nat) (list : List α) : Nat := (list.map weight).sum

@[simp] theorem total_nil (weight : α → Nat) : total weight [] = 0 := rfl

@[simp] theorem total_cons (weight : α → Nat) (a : α) (list : List α) :
    total weight (a :: list) = weight a + total weight list := List.sum_cons

@[simp] theorem total_append (weight : α → Nat) (front rest : List α) :
    total weight (front ++ rest) = total weight front + total weight rest := by
  rw [total, List.map_append, List.sum_append]
  rfl

theorem total_le_total {other : α → Nat} (below : ∀ a, weight a ≤ other a) (list : List α) :
    total weight list ≤ total other list := by
  induction list with
  | nil => exact Nat.le_refl 0
  | cons a list ih => exact Nat.add_le_add (below a) ih

theorem cut_before {front' rest' : List α} (positive : ∀ a, 0 < weight a) (same : front ++ rest = front' ++ rest')
    (low : total weight front ≤ total weight front') : ∃ middle, front' = front ++ middle ∧ rest = middle ++ rest' := by
  rcases List.append_eq_append_iff.mp same with ⟨middle, longer, split⟩ | ⟨middle, longer, split⟩
  · exact ⟨middle, longer, split⟩
  · cases middle with
    | nil => exact ⟨[], by rw [longer, List.append_nil, List.append_nil], split.symm⟩
    | cons a middle =>
      rw [longer, total_append, total_cons] at low
      have := positive a
      omega

theorem cut_cases (list : List α) (inside : place ≤ total weight list) :
    (∃ front rest, list = front ++ rest ∧ total weight front = place) ∨
      ∃ front a rest, list = front ++ a :: rest ∧ total weight front < place ∧
        place < total weight front + weight a := by
  induction list generalizing place with
  | nil => exact .inl ⟨[], [], rfl, (Nat.le_zero.mp inside).symm⟩
  | cons a list ih =>
    rcases Nat.eq_zero_or_pos place with rfl | later
    · exact .inl ⟨[], a :: list, rfl, rfl⟩
    rcases Nat.lt_or_ge place (weight a) with within | past
    · exact .inr ⟨[], a, list, rfl, later, by rwa [total_nil, Nat.zero_add]⟩
    rw [total_cons] at inside
    rcases @ih (place - weight a) (by omega) with ⟨front, rest, rfl, there⟩ | ⟨front, b, rest, rfl, low, high⟩
    · exact .inl ⟨a :: front, rest, rfl, by rw [total_cons, there]; omega⟩
    · exact .inr ⟨a :: front, b, rest, rfl, by rw [total_cons]; omega, by rw [total_cons]; omega⟩

/-- What stands behind a place; there is nothing behind one inside an entry or past the end. -/
def dropTo (weight : α → Nat) : List α → Nat → Option (List α)
  | list, 0 => some list
  | [], _ + 1 => none
  | a :: list, place + 1 => if place + 1 < weight a then none else dropTo weight list (place + 1 - weight a)

/-- What stands before a place. -/
def takeTo (weight : α → Nat) : List α → Nat → Option (List α)
  | _, 0 => some []
  | [], _ + 1 => none
  | a :: list, place + 1 =>
    if place + 1 < weight a then none else (takeTo weight list (place + 1 - weight a)).map (a :: ·)

/-- A place between two elements parts the list there. -/
theorem cut_total (positive : ∀ a, 0 < weight a) (front rest : List α) :
    dropTo weight (front ++ rest) (total weight front) = some rest ∧
      takeTo weight (front ++ rest) (total weight front) = some front := by
  induction front with
  | nil => cases rest <;> exact ⟨rfl, rfl⟩
  | cons a front ih =>
    obtain ⟨n, more⟩ := Nat.exists_eq_succ_of_ne_zero (Nat.ne_of_gt (positive a))
    have place : total weight (a :: front) = n + total weight front + 1 := by rw [total_cons, more]; omega
    have behind : n + total weight front + 1 - weight a = total weight front := by omega
    have inside : ¬n + total weight front + 1 < weight a := by omega
    rw [List.cons_append, place, dropTo, takeTo, if_neg inside, if_neg inside, behind, ih.1, ih.2]
    exact ⟨rfl, rfl⟩

theorem dropTo_total (positive : ∀ a, 0 < weight a) (front rest : List α) :
    dropTo weight (front ++ rest) (total weight front) = some rest :=
  (cut_total positive front rest).1

theorem takeTo_total (positive : ∀ a, 0 < weight a) (front rest : List α) :
    takeTo weight (front ++ rest) (total weight front) = some front :=
  (cut_total positive front rest).2

/-- What was taken stands at the beginning, and weighs as much as was asked for. -/
theorem of_takeTo (taken : takeTo weight list place = some front) :
    ∃ rest, list = front ++ rest ∧ total weight front = place := by
  induction list generalizing place front with
  | nil =>
    cases place with
    | zero =>
      cases taken
      exact ⟨[], rfl, rfl⟩
    | succ place => cases taken
  | cons a list ih =>
    cases place with
    | zero =>
      cases taken
      exact ⟨a :: list, rfl, rfl⟩
    | succ place =>
      rw [takeTo] at taken
      split at taken
      · cases taken
      · obtain ⟨front', later, rfl⟩ := Option.map_eq_some_iff.mp taken
        obtain ⟨rest, rfl, there⟩ := ih later
        exact ⟨rest, rfl, by rw [total_cons, there]; omega⟩

/-- What stands between two places. -/
def sliceTo (weight : α → Nat) (list : List α) (first last : Nat) : Option (List α) :=
  if first ≤ last then (dropTo weight list first).bind (takeTo weight · (last - first)) else none

theorem sliceTo_total (positive : ∀ a, 0 < weight a) (front middle rest : List α) :
    sliceTo weight (front ++ (middle ++ rest)) (total weight front) (total weight (front ++ middle)) = some middle := by
  have width : total weight (front ++ middle) - total weight front = total weight middle := by
    rw [total_append, Nat.add_sub_cancel_left]
  rw [sliceTo, if_pos (by rw [total_append]; exact Nat.le_add_right _ _), dropTo_total positive,
    Option.bind_some, width,
    takeTo_total positive]

end QueryHive.Library.Weights
