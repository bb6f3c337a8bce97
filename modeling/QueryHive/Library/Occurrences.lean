import Mathlib.Data.List.Nodup

/-! A list numbered by occurrence: every entry beside how often it stood earlier in the list.
No pair comes twice, and the pairs of an entry run through the numbers below its count. -/
namespace QueryHive.Library.Occurrences

universe u
variable {α : Type u} [DecidableEq α]

/-- The entries with their numbers, behind the ones `before`. -/
def numberedFrom (before : List α) : List α → List (α × Nat)
  | [] => []
  | entry :: rest => (entry, before.count entry) :: numberedFrom (entry :: before) rest

def numbered (entries : List α) : List (α × Nat) := numberedFrom [] entries

/-- An entry's numbers go on where the ones before stopped. -/
theorem mem_numberedFrom {before entries : List α} {pair : α × Nat} :
    pair ∈ numberedFrom before entries ↔
      before.count pair.1 ≤ pair.2 ∧ pair.2 < before.count pair.1 + entries.count pair.1 := by
  induction entries generalizing before with
  | nil =>
    simp only [numberedFrom, List.not_mem_nil, List.count_nil, Nat.add_zero, false_iff]
    omega
  | cons entry rest ih =>
    obtain ⟨key, number⟩ := pair
    simp only [numberedFrom, List.mem_cons, ih, Prod.mk.injEq]
    by_cases same : key = entry
    · subst same
      simp only [true_and, List.count_cons_self]
      omega
    · simp only [same, false_and, false_or, List.count_cons_of_ne (Ne.symm same)]

theorem nodup_numberedFrom (before entries : List α) : (numberedFrom before entries).Nodup := by
  induction entries generalizing before with
  | nil => exact List.nodup_nil
  | cons entry rest ih =>
    rw [numberedFrom, List.nodup_cons]
    refine ⟨?_, ih _⟩
    intro again
    have later := (mem_numberedFrom.mp again).1
    simp only [List.count_cons_self] at later
    omega

theorem mem_numbered {entries : List α} {pair : α × Nat} :
    pair ∈ numbered entries ↔ pair.2 < entries.count pair.1 := by
  rw [numbered, mem_numberedFrom, List.count_nil, Nat.zero_add]
  exact and_iff_right (Nat.zero_le _)

theorem nodup_numbered (entries : List α) : (numbered entries).Nodup := nodup_numberedFrom [] entries

/-- Labels of the numbered entries are all different exactly when no two pairs share one. -/
theorem nodup_labels_iff (label : α × Nat → β) (entries : List α) :
    ((numbered entries).map label).Nodup ↔
      ∀ first second, first.2 < entries.count first.1 → second.2 < entries.count second.1 →
        label first = label second → first = second := by
  rw [List.nodup_map_iff_inj_on (nodup_numbered entries)]
  constructor
  · intro apart first second inside inside'
    exact apart first (mem_numbered.mpr inside) second (mem_numbered.mpr inside')
  · intro apart first inside second inside'
    exact apart first second (mem_numbered.mp inside) (mem_numbered.mp inside')

end QueryHive.Library.Occurrences
