import Mathlib.Data.List.Basic
import Mathlib.Data.List.Induction

/-! A rectangular block of values, column by column, and how the row-major pages of a
driver become one: a row that is too short is padded, and the columns read back row by
row are the rows that went in. -/
namespace QueryHive.Core

variable {Value : Type}

/-- `BatchError`. -/
inductive BatchError where
  | noColumns
  | raggedColumn (index expected found : Nat)
  deriving DecidableEq, Repr

def BatchError.text : BatchError → String
  | noColumns => "a batch needs at least one column"
  | raggedColumn index expected found =>
    "column " ++ toString index ++ " has " ++ toString found ++ " values but the first column has " ++ toString expected

/-- `ColumnBatch`: at least one column, and all of one length. -/
structure ColumnBatch (Value : Type) where
  columns : List (List Value)
  wide : columns ≠ []
  square : ∀ column ∈ columns, column.length = (columns.head wide).length

namespace ColumnBatch

/-- `ColumnBatch::new` refuses a shape that cannot be a result set. -/
def new (columns : List (List Value)) : Except BatchError (ColumnBatch Value) :=
  if wide : columns ≠ [] then
    let expected := (columns.head wide).length
    if square : ∀ column ∈ columns, column.length = expected then .ok ⟨columns, wide, square⟩
    else
      let index := columns.findIdx fun column => column.length ≠ expected
      .error (.raggedColumn index expected (columns.getD index []).length)
  else .error .noColumns

def rows (batch : ColumnBatch Value) : Nat := (batch.columns.head batch.wide).length

def width (batch : ColumnBatch Value) : Nat := batch.columns.length

def row (batch : ColumnBatch Value) (index : Nat) : List Value := batch.columns.filterMap (·[index]?)

def records (batch : ColumnBatch Value) : List (List Value) := (List.range batch.rows).map batch.row

end ColumnBatch

def padded (null : Value) (width : Nat) (row : List Value) : List Value :=
  row ++ List.replicate (width - row.length) null

/-- One more row: each column takes its cell, and the columns past the row a `NULL`. -/
def pushRow (null : Value) : List (List Value) → List Value → List (List Value)
  | [], _ => []
  | column :: columns, [] => (column ++ [null]) :: pushRow null columns []
  | column :: columns, cell :: cells => (column ++ [cell]) :: pushRow null columns cells

/-- The columns of some rows, at least `width` of them: the widest row decides. -/
def transpose (null : Value) (width : Nat) (rows : List (List Value)) : List (List Value) :=
  rows.foldl (pushRow null) (List.replicate width [])

theorem pushRow_getElem (null : Value) (columns : List (List Value)) (row : List Value) (index : Nat) :
    (pushRow null columns row)[index]? = columns[index]?.map (· ++ [row.getD index null]) := by
  induction columns generalizing row index with
  | nil => rfl
  | cons column columns ih =>
    cases row with
    | nil =>
      cases index with
      | zero => rfl
      | succ index => exact (ih [] index).trans (by simp)
    | cons cell cells =>
      cases index with
      | zero => rfl
      | succ index => exact ih cells index

theorem transpose_getElem (null : Value) (width : Nat) (rows : List (List Value)) (index : Nat) :
    (transpose null width rows)[index]? = if index < width then some (rows.map (·.getD index null)) else none := by
  induction rows using List.reverseRecOn with
  | nil => simp [transpose, List.getElem?_replicate]
  | append_singleton rows row ih =>
    rw [transpose, List.foldl_concat, ← transpose, pushRow_getElem, ih]
    split <;> simp

theorem transpose_eq (null : Value) (width : Nat) (rows : List (List Value)) :
    transpose null width rows = (List.range width).map fun index => rows.map (·.getD index null) := by
  refine List.ext_getElem? fun index => ?_
  rw [transpose_getElem, List.getElem?_map]
  split
  · next inside => rw [List.getElem?_range inside]; rfl
  · next outside => rw [List.getElem?_eq_none (by simpa using outside)]; rfl

theorem padded_eq (null : Value) (fits : row.length ≤ width) :
    padded null width row = (List.range width).map fun index => row.getD index null := by
  refine List.ext_getElem? fun index => ?_
  rw [padded, List.getElem?_map]
  by_cases inside : index < width
  · rw [List.getElem?_range inside, Option.map_some]
    by_cases here : index < row.length
    · rw [List.getElem?_append_left here, List.getElem?_eq_getElem here]
      simp [List.getD_eq_getElem?_getD, List.getElem?_eq_getElem here]
    · rw [List.getElem?_append_right (Nat.le_of_not_lt here), List.getElem?_replicate, if_pos (by omega)]
      simp [List.getD_eq_getElem?_getD, List.getElem?_eq_none (Nat.le_of_not_lt here)]
  · have past : width ≤ index := Nat.le_of_not_lt inside
    have length : (row ++ List.replicate (width - row.length) null).length ≤ index := by
      rw [List.length_append, List.length_replicate]
      omega
    rw [List.getElem?_eq_none length, List.getElem?_eq_none (by simpa using past)]
    rfl

theorem records_of_transpose {null : Value} {rows : List (List Value)} {batch : ColumnBatch Value}
    (fits : ∀ row ∈ rows, row.length ≤ width) (formed : ColumnBatch.new (transpose null width rows) = .ok batch) :
    batch.records = rows.map (padded null width) := by
  unfold ColumnBatch.new at formed
  split at formed
  · next wide =>
    dsimp only at formed
    split at formed
    · next square =>
      cases formed
      have columns := transpose_eq null width rows
      have height : ((transpose null width rows).head wide).length = rows.length := by
        have inside := List.head_mem wide
        generalize (transpose null width rows).head wide = first at inside ⊢
        rw [columns] at inside
        obtain ⟨index, -, rfl⟩ := List.mem_map.mp inside
        exact List.length_map _
      refine List.ext_getElem (by simp [ColumnBatch.records, ColumnBatch.rows, height]) fun index _ inside => ?_
      rw [List.length_map] at inside
      have fitted := fits rows[index] (List.getElem_mem inside)
      have cells : ((fun column : List Value => column[index]?) ∘ fun column => rows.map (·.getD column null)) =
          some ∘ fun column => rows[index].getD column null := by
        funext column
        simp [inside]
      simp only [ColumnBatch.records, List.getElem_map, List.getElem_range, ColumnBatch.row, columns,
        padded_eq null fitted, List.filterMap_map, cells, List.filterMap_eq_map]
    · cases formed
  · cases formed

end QueryHive.Core
