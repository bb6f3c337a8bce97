import Mathlib.Data.List.Sort

/-! Comparators put together from smaller ones: by a rank first and within one rank by a
comparator of its own, in either direction, and with a tie-break. Each is a total preorder when
its parts are, which is what a sort asks of its comparator. -/
namespace QueryHive.Library.Comparator
open Std

variable {α β : Type}

/-- By rank, and within a rank by `inner`. -/
def graded [Ord β] (rank : α → β) (inner : α → α → Ordering) (a b : α) : Ordering :=
  (compare (rank a) (rank b)).then (inner a b)

/-- In one of two directions. -/
def directed (descending : Bool) (cmp : α → α → Ordering) (a b : α) : Ordering :=
  if descending then (cmp a b).swap else cmp a b

theorem swap_of_oriented (cmp : α → α → Ordering) [OrientedCmp cmp] (a b : α) : cmp b a = (cmp a b).swap :=
  OrientedCmp.eq_swap

theorem lt_of_differ [Ord β] [LawfulEqOrd β] {x y : β} (differ : x ≠ y) (order : (compare x y).isLE = true) :
    compare x y = .lt := by
  cases result : compare x y with
  | lt => rfl
  | eq => exact absurd (LawfulEqCmp.eq_of_compare result) differ
  | gt =>
    rw [result] at order
    cases order

/-- A graded comparator is a total preorder when each rank's own comparator is one. -/
theorem graded_trans [Ord β] [TransOrd β] [LawfulEqOrd β] {rank : α → β} {inner : α → α → Ordering}
    (swap : ∀ a b, rank a = rank b → inner a b = (inner b a).swap)
    (trans : ∀ a b c, rank a = rank b → rank b = rank c → (inner a b).isLE → (inner b c).isLE → (inner a c).isLE) :
    TransCmp (graded rank inner) where
  eq_swap {a b} := by
    unfold graded
    rw [OrientedOrd.eq_swap (a := rank a), Ordering.swap_then]
    by_cases same : rank a = rank b
    · rw [swap a b same]
    · have differ : compare (rank b) (rank a) ≠ .eq := fun equal => same (LawfulEqCmp.eq_of_compare equal).symm
      cases order : compare (rank b) (rank a) with
      | eq => exact absurd order differ
      | lt => rfl
      | gt => rfl
  isLE_trans {a b c} first second := by
    simp only [graded, Ordering.isLE_then_iff_and] at first second ⊢
    refine ⟨TransCmp.isLE_trans first.1 second.1, ?_⟩
    rcases first.2 with less | within
    · exact .inl (TransCmp.lt_of_lt_of_isLE less second.1)
    rcases second.2 with less | within'
    · exact .inl (TransCmp.lt_of_isLE_of_lt first.1 less)
    by_cases same : rank a = rank b
    · by_cases same' : rank b = rank c
      · exact .inr (trans a b c same same' within within')
      · exact .inl (TransCmp.lt_of_isLE_of_lt first.1 (lt_of_differ same' second.1))
    · exact .inl (TransCmp.lt_of_lt_of_isLE (lt_of_differ same first.1) second.1)

theorem directed_trans {cmp : α → α → Ordering} [TransCmp cmp] (descending : Bool) :
    TransCmp (directed descending cmp) := by
  cases descending with
  | false => exact inferInstanceAs (TransCmp cmp)
  | true =>
    have opposite : directed true cmp = fun a b => cmp b a := funext fun a => funext fun b => OrientedCmp.eq_swap.symm
    rw [opposite]
    infer_instance

/-- A sort by a total preorder leaves every item before the ones that are not smaller. -/
theorem mergeSort_ordered (cmp : α → α → Ordering) [TransCmp cmp] (items : List α) :
    (items.mergeSort fun a b => (cmp a b).isLE).Pairwise fun a b => (cmp a b).isLE = true := by
  refine List.pairwise_mergeSort (fun _ _ _ => TransCmp.isLE_trans) (fun a b => ?_) items
  rw [Bool.or_eq_true]
  by_cases first : (cmp a b).isLE = true
  · exact .inl first
  · rw [swap_of_oriented cmp a b]
    cases order : cmp a b with
    | gt => exact .inr rfl
    | lt => exact absurd (by rw [order]; rfl) first
    | eq => exact absurd (by rw [order]; rfl) first

end QueryHive.Library.Comparator
