import Mathlib.Data.List.Sort

/-! Tables with a primary key. The rows are kept in the order of their keys, which are all
different, so that two tables with the same rows are one table and writes to different
keys commute. -/
namespace QueryHive.Library

universe u v
variable {κ : Type u} {ρ : Type v} [LinearOrder κ] {key : ρ → κ}

/-- Rows by ascending key. -/
structure Table (key : ρ → κ) where
  rows : List ρ := []
  ascending : rows.Pairwise (fun a b => key a < key b) := by exact List.Pairwise.nil

namespace Table

instance : Membership ρ (Table key) := ⟨fun table row => row ∈ table.rows⟩

theorem mem_iff {table : Table key} : row ∈ table ↔ row ∈ table.rows := Iff.rfl

instance : Inhabited (Table key) := ⟨{}⟩

instance [DecidableEq ρ] : DecidableEq (Table key) := fun a b =>
  decidable_of_iff (a.rows = b.rows) ⟨fun same => by cases a; cases b; cases same; rfl, fun same => same ▸ rfl⟩

def find (table : Table key) (k : κ) : Option ρ := table.rows.find? (key · = k)

def place (key : ρ → κ) (row : ρ) : List ρ → List ρ
  | [] => [row]
  | r :: rest =>
    if key row < key r then row :: r :: rest else if key row = key r then row :: rest else r :: place key row rest

theorem mem_place {rows : List ρ} (inside : r ∈ place key row rows) : r = row ∨ r ∈ rows := by
  induction rows with
  | nil => exact .inl (List.mem_singleton.mp inside)
  | cons first rest ih =>
    rw [place] at inside
    split at inside
    · exact List.mem_cons.mp inside
    split at inside
    · exact (List.mem_cons.mp inside).imp_right (List.mem_cons_of_mem _)
    · rcases List.mem_cons.mp inside with rfl | later
      · exact .inr List.mem_cons_self
      · exact (ih later).imp_right (List.mem_cons_of_mem _)

theorem place_ascending {rows : List ρ} (ascending : rows.Pairwise fun a b => key a < key b) :
    (place key row rows).Pairwise fun a b => key a < key b := by
  induction rows with
  | nil => exact List.pairwise_singleton _ _
  | cons first rest ih =>
    obtain ⟨below, later⟩ := List.pairwise_cons.mp ascending
    rw [place]
    split
    · next before =>
      refine List.pairwise_cons.mpr ⟨fun r inside => ?_, ascending⟩
      rcases List.mem_cons.mp inside with rfl | inside
      · exact before
      · exact before.trans (below r inside)
    split
    · next same => exact List.pairwise_cons.mpr ⟨fun r inside => same ▸ below r inside, later⟩
    · next notBefore different =>
      refine List.pairwise_cons.mpr ⟨fun r inside => ?_, ih later⟩
      rcases mem_place inside with rfl | inside
      · exact lt_of_le_of_ne (not_lt.mp notBefore) (Ne.symm different)
      · exact below r inside

/-- `INSERT … ON CONFLICT(key) DO UPDATE`. -/
def upsert (table : Table key) (row : ρ) : Table key where
  rows := place key row table.rows
  ascending := place_ascending table.ascending

theorem unique {table : Table key} (one : a ∈ table) (other : b ∈ table) (same : key a = key b) : a = b :=
  List.Pairwise.forall_of_forall_of_flip (R := fun a b => key a = key b → a = b) (fun _ _ _ => rfl)
    (table.ascending.imp fun less same => absurd same less.ne)
    (table.ascending.imp fun less same => absurd same less.ne') one other same

theorem find_eq_some_iff {table : Table key} : table.find k = some row ↔ row ∈ table ∧ key row = k := by
  constructor
  · intro found
    exact ⟨List.mem_of_find?_eq_some found, by simpa using List.find?_some found⟩
  · rintro ⟨inside, rfl⟩
    cases found : table.find (key row) with
    | none => exact absurd (List.find?_eq_none.mp found row inside) (by simp)
    | some r =>
      have other : key r = key row := by simpa using List.find?_some found
      rw [unique (List.mem_of_find?_eq_some found) inside other]

theorem find_eq_none_iff {table : Table key} : table.find k = none ↔ ∀ row ∈ table, key row ≠ k := by
  rw [find, List.find?_eq_none]
  simp [mem_iff]

theorem mem_place_iff {rows : List ρ} (ascending : rows.Pairwise fun a b => key a < key b) :
    r ∈ place key row rows ↔ r = row ∨ r ∈ rows ∧ key r ≠ key row := by
  induction rows with
  | nil => simp [place]
  | cons first rest ih =>
    obtain ⟨below, later⟩ := List.pairwise_cons.mp ascending
    rw [place]
    split
    · next before =>
      have others : ∀ r ∈ first :: rest, key r ≠ key row := by
        intro r inside
        rcases List.mem_cons.mp inside with rfl | inside
        · exact before.ne'
        · exact (before.trans (below r inside)).ne'
      simp only [List.mem_cons] at others ⊢
      grind
    split
    · next same =>
      have others : ∀ r ∈ rest, key r ≠ key row := fun r inside => same ▸ (below r inside).ne'
      simp only [List.mem_cons]
      grind
    · next different =>
      simp only [List.mem_cons, ih later]
      grind

theorem mem_upsert_iff {table : Table key} : r ∈ table.upsert row ↔ r = row ∨ r ∈ table ∧ key r ≠ key row :=
  mem_place_iff table.ascending

theorem place_last {rows : List ρ} (last : ∀ r ∈ rows, key r < key row) : place key row rows = rows ++ [row] := by
  induction rows with
  | nil => rfl
  | cons first rest ih =>
    have before := last first List.mem_cons_self
    rw [place, if_neg before.asymm, if_neg before.ne', ih fun r inside => last r (List.mem_cons_of_mem _ inside),
      List.cons_append]

theorem rows_upsert_last {table : Table key} (last : ∀ r ∈ table.rows, key r < key row) :
    (table.upsert row).rows = table.rows ++ [row] := place_last last

theorem ext_mem {a b : Table key} (same : ∀ row, row ∈ a ↔ row ∈ b) : a = b := by
  have irrefl : Std.Irrefl fun x y : ρ => key x < key y := ⟨fun _ => lt_irrefl _⟩
  have antisymm : Std.Asymm fun x y : ρ => key x < key y := ⟨fun _ _ => lt_asymm⟩
  have rows : a.rows = b.rows := a.ascending.eq_of_mem_iff b.ascending fun {row} => same row
  cases a
  cases b
  cases rows
  rfl

@[simp] theorem find_upsert_self {table : Table key} : (table.upsert row).find (key row) = some row :=
  find_eq_some_iff.mpr ⟨mem_upsert_iff.mpr (.inl rfl), rfl⟩

theorem find_upsert_of_ne {table : Table key} (other : key row ≠ k) : (table.upsert row).find k = table.find k := by
  apply Option.ext
  intro r
  rw [find_eq_some_iff, find_eq_some_iff, mem_upsert_iff]
  grind

end Table

end QueryHive.Library
