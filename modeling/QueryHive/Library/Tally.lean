import Mathlib.Algebra.Ring.Nat
import Mathlib.Data.List.Basic

/-! The total weight of a list of holdings, and what replacing, taking out or
reordering entries does to it. -/
namespace QueryHive.Library.Tally

universe u
variable {α : Type u} {weight : α → Nat}

def tally (weight : α → Nat) (holdings : List α) : Nat := (holdings.map weight).sum

@[simp] theorem tally_nil : tally weight [] = 0 := rfl

@[simp] theorem tally_cons (holding : α) (rest : List α) :
    tally weight (holding :: rest) = weight holding + tally weight rest := by
  rw [tally, List.map_cons, List.sum_cons]
  rfl

@[simp] theorem tally_append (first second : List α) :
    tally weight (first ++ second) = tally weight first + tally weight second := by
  rw [tally, List.map_append, List.sum_append]
  rfl

theorem tally_perm (same : first.Perm second) : tally weight first = tally weight second :=
  (same.map weight).sum_nat

theorem tally_set (weight : α → Nat) (found : holdings[i]? = some old) (new : α) :
    tally weight (holdings.set i new) + weight old = tally weight holdings + weight new := by
  induction holdings generalizing i with
  | nil => cases found
  | cons holding rest ih =>
    cases i with
    | zero =>
      cases found
      simp only [List.set_cons_zero, tally_cons]
      omega
    | succ i =>
      have later := ih found
      simp only [List.set_cons_succ, tally_cons]
      omega

theorem tally_modify (change : α → α) (same : ∀ holding, weight (change holding) = weight holding)
    (holdings : List α) (i : Nat) :
    tally weight (holdings.modify i change) = tally weight holdings := by
  induction holdings generalizing i with
  | nil => rw [List.modify_nil]
  | cons holding rest ih =>
    cases i with
    | zero => simp only [List.modify_zero_cons, tally_cons, same]
    | succ i => simp only [List.modify_succ_cons, tally_cons, ih i]

theorem tally_modify_add {change : α → α} (more : ∀ holding, weight (change holding) = weight holding + n)
    (inside : i < holdings.length) : tally weight (holdings.modify i change) = tally weight holdings + n := by
  induction holdings generalizing i with
  | nil => exact absurd inside (Nat.not_lt_zero i)
  | cons holding rest ih =>
    cases i with
    | zero =>
      simp only [List.modify_zero_cons, tally_cons, more]
      omega
    | succ i =>
      simp only [List.modify_succ_cons, tally_cons, ih (Nat.lt_of_succ_lt_succ inside)]
      omega

theorem tally_flatten (weight : α → Nat) (lists : List (List α)) :
    tally weight lists.flatten = tally (tally weight) lists := by
  induction lists with
  | nil => rfl
  | cons list rest ih => rw [List.flatten_cons, tally_append, tally_cons, ih]

theorem tally_split {items : List α} {whole first second : α → Nat}
    (split : ∀ b ∈ items, whole b = first b + second b) :
    tally whole items = tally first items + tally second items := by
  induction items with
  | nil => rfl
  | cons item items ih =>
    have here := split item List.mem_cons_self
    have later := ih fun other inside => split other (List.mem_cons_of_mem _ inside)
    simp only [tally_cons]
    omega

theorem tally_erase (weight : α → Nat) (found : holdings[i]? = some old) :
    tally weight (holdings.eraseIdx i) + weight old = tally weight holdings := by
  induction holdings generalizing i with
  | nil => cases found
  | cons holding rest ih =>
    cases i with
    | zero =>
      cases found
      simp only [List.eraseIdx_cons_zero, tally_cons]
      omega
    | succ i =>
      have later := ih found
      simp only [List.eraseIdx_cons_succ, tally_cons]
      omega

end QueryHive.Library.Tally
