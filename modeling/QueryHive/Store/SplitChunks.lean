import Mathlib.Data.List.Nodup
import QueryHive.Store.Push

/-! The builder that stages the rows of a fetch and is split into chunks. The estimate of its bytes
is kept by every call: two take a whole batch and set it, one adds to it cell by cell, two take from
it. A subtraction that went below zero, and an index that is not there, are `none`. -/
namespace QueryHive.Store.Split
open QueryHive.Columnar QueryHive.Core QueryHive.Library.Tally QueryHive.Store.Push

/-- `ChunkBuilder`, with the width it was made for. -/
structure Builder extends ChunkBuilder where
  width : Nat

namespace Builder

/-- `ChunkBuilder::new`. -/
def new (width : Nat) : Builder := ⟨.new width, width⟩

def isEmpty (builder : Builder) : Bool := builder.rows == 0

/-- `push_value`. -/
def pushValue (builder : Builder) (column : Nat) (value : Value) : Option Builder :=
  if column < builder.columns.length then
    some { builder with toChunkBuilder := builder.toChunkBuilder.pushValue column value }
  else none

/-- `push_value` for one cell after another. -/
def pushCells (builder : Builder) : List (Nat × Value) → Option Builder
  | [] => some builder
  | (column, value) :: cells => do
    let builder ← builder.pushValue column value
    builder.pushCells cells

/-- `truncate`: the estimate follows the cut. -/
def truncate (builder : Builder) (rows : Nat) : Option Builder :=
  if rows ≥ builder.rows then some builder
  else if builder.columns.all (rows ≤ ·.length) then
    let dropped := tally cellWidth (builder.columns.flatMap (·.drop rows))
    if dropped ≤ builder.estimatedBytes then
      some { builder with
        columns := builder.columns.map (·.take rows)
        estimatedBytes := builder.estimatedBytes - dropped }
    else none
  else none

/-- The loop of `split_sealable`, with so many rows after those taken. -/
def sealable (columns : List (List Value)) : Nat → Nat → Nat → Option (Nat × Nat)
  | 0, taken, bytes => some (taken, bytes)
  | left + 1, taken, bytes =>
    if taken < chunkMaxRows ∧ bytes < chunkTargetBytes then do
      let row ← columns.mapM (·[taken]?)
      sealable columns left (taken + 1) (bytes + tally cellWidth row)
    else some (taken, bytes)

/-- `split_sealable`: the rows of one chunk, and the builder with the rest. -/
def splitSealable (builder : Builder) : Option (Builder × Builder) := do
  let (taken, bytes) ← sealable builder.columns builder.rows 0 0
  if builder.columns.all (taken ≤ ·.length) then
    let headBytes := if taken = builder.rows then builder.estimatedBytes else bytes
    if headBytes ≤ builder.estimatedBytes then
      some
        ({ builder with columns := builder.columns.map (·.take taken), estimatedBytes := headBytes },
          { builder with
            columns := builder.columns.map (·.drop taken)
            estimatedBytes := builder.estimatedBytes - headBytes })
    else none
  else none

/-- `push_owned`: an empty builder takes the columns whole. -/
def pushOwned (builder : Builder) (batch : ColumnBatch Value) : Option (Except ColumnarError Nat × Builder) :=
  if batch.width ≠ builder.width then some (.error (.width builder.width batch.width), builder)
  else if builder.isEmpty then
    some (.ok batch.rows,
      { builder with columns := batch.columns, estimatedBytes := tally cellWidth batch.columns.flatten })
  else do
    let builder ← builder.pushCells (batch.columns.zipIdx.flatMap fun (cells, column) => cells.map (column, ·))
    some (.ok batch.rows, builder)

/-- The loop of `push_batch`, with so many rows of the batch left. -/
def pushRows (batch : ColumnBatch Value) : Nat → Nat → Builder → Option (Nat × Builder)
  | 0, accepted, builder => some (accepted, builder)
  | left + 1, accepted, builder =>
    if builder.isFull then some (accepted, builder)
    else do
      let builder ← builder.pushCells ((List.range builder.width).map fun column =>
        (column, ((batch.columns[column]?).bind (·[accepted]?)).getD .null))
      pushRows batch left (accepted + 1) builder

/-- `push_batch`: stops at the seal limit. -/
def pushBatch (builder : Builder) (batch : ColumnBatch Value) : Option (Except ColumnarError Nat × Builder) :=
  if batch.width ≠ builder.width then some (.error (.width builder.width batch.width), builder)
  else do
    let (accepted, builder) ← pushRows batch batch.rows 0 builder
    some (.ok accepted, builder)

/-- The staged rows. -/
def records (builder : Builder) : List (List Value) :=
  (List.range builder.rows).map fun row => builder.columns.filterMap (·[row]?)

end Builder

/-- What is done with a builder between two rows. -/
inductive Call where
  | pushOwned (batch : ColumnBatch Value)
  | pushBatch (batch : ColumnBatch Value)
  | pushRow (cells : List (Nat × Value))
  | truncate (rows : Nat)
  | splitSealable

/-- A row pushed cell by cell has one cell for every column, in any order. -/
def Call.Whole (width : Nat) : Call → Prop
  | .pushRow cells => (cells.map Prod.fst).Perm (List.range width)
  | _ => True

def Builder.step (builder : Builder) : Call → Option Builder
  | .pushOwned batch => (builder.pushOwned batch).map Prod.snd
  | .pushBatch batch => (builder.pushBatch batch).map Prod.snd
  | .pushRow cells => builder.pushCells cells
  | .truncate rows => builder.truncate rows
  | .splitSealable => builder.splitSealable.map Prod.snd

/-- The rows of a chunk once these are offered to it, one after another until it is full. -/
def filled (rows : List (List Value)) : List (List Value) → List (List Value)
  | [] => rows
  | row :: offered =>
    if chunkMaxRows ≤ rows.length ∨ chunkTargetBytes ≤ tally (tally cellWidth) rows then rows
    else filled (rows ++ [row]) offered

def rowOf (width : Nat) (cells : List (Nat × Value)) : List Value := (List.range width).filterMap (cells.lookup ·)

def Call.rows (width : Nat) (rows : List (List Value)) : Call → List (List Value)
  | .pushOwned batch => if batch.width = width then rows ++ batch.records else rows
  | .pushBatch batch => if batch.width = width then filled rows batch.records else rows
  | .pushRow cells => rows ++ [rowOf width cells]
  | .truncate upTo => rows.take upTo
  | .splitSealable => rows.drop (filled [] rows).length

/-- The builders a fetch comes by, what calls leave of a new one and the heads split off, each with the rows that
were staged in it. -/
inductive Reached (width : Nat) : Builder → List (List Value) → Prop where
  | new : Reached width (.new width) []
  | step (reached : Reached width builder rows) (whole : call.Whole width) (ran : builder.step call = some next) :
      Reached width next (call.rows width rows)
  | head (reached : Reached width builder rows) (split : builder.splitSealable = some (head, rest)) :
      Reached width head (filled [] rows)

/-- `split_sealable` until the builder is empty. -/
def splitAll : Nat → Builder → Option (List Builder)
  | 0, _ => none
  | fuel + 1, builder =>
    if builder.isEmpty then some []
    else do
      let (head, rest) ← builder.splitSealable
      let heads ← splitAll fuel rest
      some (head :: heads)

/-- One width, one length, and the estimate is what the cells take. -/
structure Staged (builder : Builder) : Prop where
  positive : 0 < builder.width
  wide : builder.columns.length = builder.width
  square : ∀ column ∈ builder.columns, column.length = builder.rows
  counted : builder.estimatedBytes = tally (tally cellWidth) builder.columns

theorem rows_eq {builder : Builder} (each : ∀ column ∈ builder.columns, column.length = n)
    (wide : builder.columns ≠ []) : builder.rows = n := by
  obtain ⟨⟨columns, bytes⟩, width⟩ := builder
  cases columns with
  | nil => exact absurd rfl wide
  | cons column columns => exact each column List.mem_cons_self

theorem square_of_length {builder : Builder} (each : ∀ column ∈ builder.columns, column.length = n) :
    ∀ column ∈ builder.columns, column.length = builder.rows := by
  intro column inside
  rw [each column inside, rows_eq each (List.ne_nil_of_mem inside)]

theorem staged_new (positive : 0 < width) : Staged (.new width) where
  positive
  wide := List.length_replicate
  square := square_of_length fun column inside => List.length_eq_zero_iff.mpr (List.eq_of_mem_replicate inside)
  counted := by
    change 0 = tally (tally cellWidth) (List.replicate width [])
    clear positive
    induction width with
    | zero => rfl
    | succ width ih => rw [List.replicate_succ, tally_cons, ← ih]; rfl

variable {builder head rest : Builder}

theorem rows_take (upTo : Nat) {cut : Builder} (columns : cut.columns = builder.columns.map (·.take upTo)) :
    cut.rows = min upTo builder.rows := by
  obtain ⟨⟨own, bytes⟩, width⟩ := builder
  obtain ⟨⟨others, left⟩, wide⟩ := cut
  cases columns
  cases own with
  | nil => exact (Nat.min_zero upTo).symm
  | cons column own => exact List.length_take

theorem rows_drop (upTo : Nat) {cut : Builder} (columns : cut.columns = builder.columns.map (·.drop upTo)) :
    cut.rows = builder.rows - upTo := by
  obtain ⟨⟨own, bytes⟩, width⟩ := builder
  obtain ⟨⟨others, left⟩, wide⟩ := cut
  cases columns
  cases own with
  | nil => exact (Nat.zero_sub upTo).symm
  | cons column own => exact List.length_drop

theorem records_cut (upTo : Nat) (inside : upTo ≤ builder.rows)
    (first : head.columns = builder.columns.map (·.take upTo))
    (second : rest.columns = builder.columns.map (·.drop upTo)) :
    builder.records = head.records ++ rest.records := by
  have height : builder.rows = upTo + (builder.rows - upTo) := by omega
  rw [Builder.records, height, List.range_add, List.map_append, Builder.records, Builder.records,
    rows_take upTo first, rows_drop upTo second, Nat.min_eq_left inside, first, second, List.map_map]
  refine congrArg₂ (· ++ ·) (List.map_congr_left fun row below => ?_) (List.map_congr_left fun row _ => ?_)
  · rw [List.filterMap_map]
    refine List.filterMap_congr fun column _ => ?_
    exact (List.getElem?_take_of_lt (List.mem_range.mp below)).symm
  · rw [Function.comp_apply, List.filterMap_map]
    refine List.filterMap_congr fun column _ => ?_
    exact List.getElem?_drop.symm

theorem records_length (builder : Builder) : builder.records.length = builder.rows := by
  rw [Builder.records, List.length_map, List.length_range]

theorem records_take (upTo : Nat) (inside : upTo ≤ builder.rows)
    (first : head.columns = builder.columns.map (·.take upTo)) : head.records = builder.records.take upTo := by
  let more : Builder := ⟨⟨builder.columns.map (·.drop upTo), 0⟩, builder.width⟩
  have whole : builder.records = head.records ++ more.records := records_cut upTo inside first rfl
  rw [whole, List.take_left']
  rw [records_length, rows_take upTo first, Nat.min_eq_left inside]

/-- Columns that all grow by as many cells grow by the rows of those cells. -/
theorem records_grown (staged : Staged builder) {extra : Nat → List Value}
    (columns : rest.columns = builder.columns.mapIdx fun column own => own ++ extra column)
    (each : ∀ column < builder.width, (extra column).length = n) :
    rest.records = builder.records ++
      (List.range n).map fun row => (List.range builder.width).filterMap fun column => (extra column)[row]? := by
  have first : builder.columns = rest.columns.map (·.take builder.rows) := by
    rw [columns]
    refine List.ext_getElem (by simp) fun place here _ => ?_
    rw [List.getElem_map, List.getElem_mapIdx, List.take_left' (staged.square _ (List.getElem_mem here))]
  let more : Builder := ⟨⟨(List.range builder.width).map extra, 0⟩, builder.width⟩
  have second : more.columns = rest.columns.map (·.drop builder.rows) := by
    rw [columns]
    refine List.ext_getElem (by simp [more, staged.wide]) fun place _ here => ?_
    rw [List.length_map, List.length_mapIdx] at here
    simp [more, List.drop_left' (staged.square _ (List.getElem_mem here))]
  have height : more.rows = n := by
    refine rows_eq (fun column inside => ?_) (by simpa [more] using staged.positive.ne')
    obtain ⟨place, below, rfl⟩ := List.mem_map.mp inside
    exact each place (List.mem_range.mp below)
  have room : builder.rows ≤ rest.rows := by
    have shorter := rows_take builder.rows first
    omega
  rw [records_cut builder.rows room first second, Builder.records, Builder.records, height]
  refine congrArg (_ ++ ·) (List.map_congr_left fun row _ => ?_)
  rw [show more.columns = (List.range builder.width).map extra from rfl, List.filterMap_map]
  rfl

def received (cells : List (Nat × Value)) (column : Nat) : List Value :=
  (cells.filter (·.1 == column)).map Prod.snd

/-- Pushing cells for columns that are there: each column is longer by its own cells, and the
estimate is still right. -/
theorem pushCells_spec {builder : Builder} (cells : List (Nat × Value))
    (inside : ∀ cell ∈ cells, cell.1 < builder.columns.length)
    (counted : builder.estimatedBytes = tally (tally cellWidth) builder.columns) :
    ∃ next, builder.pushCells cells = some next ∧ next.width = builder.width ∧
      (∀ column, next.columns[column]? = builder.columns[column]?.map (· ++ received cells column)) ∧
      next.estimatedBytes = tally (tally cellWidth) next.columns := by
  induction cells generalizing builder with
  | nil =>
    refine ⟨builder, rfl, rfl, fun column => ?_, counted⟩
    cases builder.columns[column]? <;> simp [received]
  | cons cell cells ih =>
    obtain ⟨place, value⟩ := cell
    have here : place < builder.columns.length := inside (place, value) List.mem_cons_self
    let pushed : Builder := { builder with toChunkBuilder := builder.toChunkBuilder.pushValue place value }
    have length : pushed.columns.length = builder.columns.length := List.length_modify ..
    have weighed : pushed.estimatedBytes = tally (tally cellWidth) pushed.columns := by
      have more : ∀ column : List Value, tally cellWidth (column ++ [value]) =
        tally cellWidth column + cellWidth value := by
        intro column
        rw [tally_append, tally_cons, tally_nil, Nat.add_zero]
      exact (congrArg (· + cellWidth value) counted).trans (tally_modify_add more here).symm
    obtain ⟨next, ran, width, columns, estimate⟩ := ih
      (fun other later => length ▸ inside other (List.mem_cons_of_mem _ later)) weighed
    refine ⟨next, ?_, width, fun column => ?_, estimate⟩
    · rw [Builder.pushCells, Builder.pushValue, if_pos here]
      exact ran
    · have now : pushed.columns[column]? = (fun cells => if place = column then cells ++ [value] else cells) <$>
          builder.columns[column]? := List.getElem?_modify ..
      rw [columns column, now]
      by_cases same : place = column
      · subst same
        cases builder.columns[place]? <;> simp [received]
      · cases builder.columns[column]? <;> simp [received, same]

/-- Cells that add as many to every column add their rows and leave the builder with its shape
and its estimate. -/
theorem staged_pushCells (staged : Staged builder) (cells : List (Nat × Value))
    (inside : ∀ cell ∈ cells, cell.1 < builder.width)
    (each : ∀ column < builder.width, (received cells column).length = n) :
    ∃ next, builder.pushCells cells = some next ∧ next.width = builder.width ∧ Staged next ∧
      next.records = builder.records ++
        (List.range n).map fun row => (List.range builder.width).filterMap fun column =>
        (received cells column)[row]? := by
  obtain ⟨next, ran, width, columns, estimate⟩ := pushCells_spec cells (staged.wide ▸ inside) staged.counted
  have whole : next.columns = builder.columns.mapIdx fun column own => own ++ received cells column := by
    refine List.ext_getElem? fun column => ?_
    rw [columns column, List.getElem?_mapIdx]
  refine ⟨next, ran, width, ⟨width ▸ staged.positive, ?_, square_of_length (n := builder.rows + n) ?_, estimate⟩,
    records_grown staged whole each⟩
  · rw [whole, List.length_mapIdx, width, staged.wide]
  · intro column member
    rw [whole] at member
    obtain ⟨place, here, rfl⟩ := List.mem_mapIdx.mp member
    rw [List.length_append, staged.square _ (List.getElem_mem here), each place (staged.wide ▸ here)]

theorem received_whole (whole : (cells.map Prod.fst).Perm (List.range width)) (inside : column < width) :
    (received cells column).length = 1 := by
  have once : (List.range width).count column = 1 :=
    List.count_eq_one_of_mem List.nodup_range (List.mem_range.mpr inside)
  rw [← whole.count_eq, List.count, List.countP_map] at once
  rw [received, List.length_map, ← List.countP_eq_length_filter]
  exact once

theorem received_head (cells : List (Nat × Value)) (column : Nat) :
    (received cells column)[0]? = cells.lookup column := by
  induction cells with
  | nil => rfl
  | cons cell cells ih =>
    obtain ⟨place, value⟩ := cell
    rw [received] at ih ⊢
    by_cases same : place = column
    · simp [same]
    · rw [List.filter_cons_of_neg (by simpa using same), ih, List.lookup_cons, beq_false_of_ne (Ne.symm same)]

theorem staged_pushRow (staged : Staged builder) (whole : (cells.map Prod.fst).Perm (List.range builder.width)) :
    ∃ next, builder.pushCells cells = some next ∧ next.width = builder.width ∧ Staged next ∧
      next.records = builder.records ++ [rowOf builder.width cells] := by
  obtain ⟨next, ran, width, still, rows⟩ := staged_pushCells staged cells
    (fun cell member => List.mem_range.mp (whole.mem_iff.mp (List.mem_map_of_mem member)))
    fun column inside => received_whole whole inside
  refine ⟨next, ran, width, still, ?_⟩
  rw [rows, rowOf, List.range_one, List.map_singleton]
  simp only [received_head]

def front (columns : List (List Value)) (rows : Nat) : Nat :=
  tally (fun column => tally cellWidth (column.take rows)) columns

theorem tally_map (weight : β → Nat) (change : α → β) (items : List α) :
    tally weight (items.map change) = tally (fun item => weight (change item)) items := by
  rw [tally, tally, List.map_map]
  rfl

theorem front_zero (columns : List (List Value)) : front columns 0 = 0 := by
  induction columns with
  | nil => rfl
  | cons column columns ih => exact (Nat.zero_add _).trans ih

theorem front_add (columns : List (List Value)) (rows : Nat) :
    tally (tally cellWidth) columns =
      front columns rows + tally (fun column => tally cellWidth (column.drop rows)) columns := by
  refine tally_split fun column _ => ?_
  rw [← tally_append, List.take_append_drop]

def recordsTo (columns : List (List Value)) (rows : Nat) : List (List Value) :=
  (List.range rows).map fun row => columns.filterMap (·[row]?)

theorem front_all (square : ∀ column ∈ columns, column.length = rows) :
    front columns rows = tally (tally cellWidth) columns := by
  have same : columns.map (fun column => tally cellWidth (column.take rows)) = columns.map (tally cellWidth) := by
    refine List.map_congr_left fun column inside => ?_
    rw [List.take_of_length_le (Nat.le_of_eq (square column inside))]
  rw [front, tally, tally, same]

theorem front_succ (square : ∀ column ∈ columns, column.length = rows) (inside : taken < rows) :
    columns.mapM (·[taken]?) = some (columns.filterMap (·[taken]?)) ∧
      front columns (taken + 1) = front columns taken + tally cellWidth (columns.filterMap (·[taken]?)) := by
  induction columns with
  | nil => exact ⟨rfl, rfl⟩
  | cons column columns ih =>
    obtain ⟨read, bytes⟩ := ih fun other member => square other (List.mem_cons_of_mem _ member)
    have here : taken < column.length := square column List.mem_cons_self ▸ inside
    have first : (column :: columns).filterMap (·[taken]?) = column[taken] :: columns.filterMap (·[taken]?) :=
      List.filterMap_cons_some (List.getElem?_eq_getElem here)
    rw [first]
    constructor
    · rw [List.mapM_cons, List.getElem?_eq_getElem here, read]
      rfl
    · have grown : tally cellWidth (column.take (taken + 1)) = tally cellWidth (column.take taken) +
        cellWidth column[taken] := by
        rw [List.take_succ_eq_append_getElem here, tally_append, tally_cons, tally_nil, Nat.add_zero]
      simp only [front, tally_cons, grown] at bytes ⊢
      omega

theorem tally_recordsTo (square : ∀ column ∈ columns, column.length = rows) (within : taken ≤ rows) :
    tally (tally cellWidth) (recordsTo columns taken) = front columns taken := by
  induction taken with
  | zero => exact (front_zero columns).symm
  | succ taken ih =>
    rw [recordsTo, List.range_succ, List.map_append, tally_append, (front_succ square within).2, ← ih (by omega)]
    rfl

theorem filterMap_range (items : List α) : (List.range items.length).filterMap (items[·]?) = items := by
  induction items with
  | nil => rfl
  | cons item items ih =>
    rw [List.length_cons, List.range_succ_eq_map, List.filterMap_cons_some (by rfl), List.filterMap_map]
    exact congrArg _ ih

theorem lookup_own {columns : List Nat} (f : Nat → Value) (inside : column ∈ columns) :
    (columns.map fun column => (column, f column)).lookup column = some (f column) := by
  induction columns with
  | nil => cases inside
  | cons first columns ih =>
    rw [List.map_cons, List.lookup_cons]
    by_cases same : column = first
    · simp [same]
    · rw [beq_false_of_ne same]
      exact ih ((List.mem_cons.mp inside).resolve_left same)

theorem rowOf_batch (batch : ColumnBatch Value) (inside : row < batch.rows) :
    rowOf batch.width ((List.range batch.width).map fun column =>
      (column, ((batch.columns[column]?).bind (·[row]?)).getD .null)) = batch.row row := by
  have own : ∀ column ∈ List.range batch.width, ((List.range batch.width).map fun column =>
      (column, ((batch.columns[column]?).bind (·[row]?)).getD .null)).lookup column =
        (batch.columns[column]?).bind (·[row]?) := by
    intro column within
    have here : column < batch.columns.length := List.mem_range.mp within
    have cell : row < batch.columns[column].length := batch.square _ (List.getElem_mem here) ▸ inside
    rw [lookup_own _ within, List.getElem?_eq_getElem here, Option.bind_some, List.getElem?_eq_getElem cell]
    rfl
  rw [rowOf, List.filterMap_congr own, ColumnBatch.row]
  conv => rhs; rw [← filterMap_range batch.columns]
  rw [List.filterMap_filterMap]
  rfl

theorem isFull_iff (staged : Staged builder) : builder.isFull = true ↔
    chunkMaxRows ≤ builder.records.length ∨ chunkTargetBytes ≤ tally (tally cellWidth) builder.records := by
  have bytes : tally (tally cellWidth) builder.records = builder.estimatedBytes := by
    rw [staged.counted, ← front_all staged.square]
    exact tally_recordsTo staged.square (Nat.le_refl _)
  rw [bytes, records_length, ChunkBuilder.isFull, Bool.or_eq_true, decide_eq_true_iff, decide_eq_true_iff]

theorem staged_pushRows (staged : Staged builder) (batch : ColumnBatch Value) (fits : batch.width = builder.width)
    (left accepted : Nat) (room : accepted + left = batch.rows) :
    ∃ total next, Builder.pushRows batch left accepted builder = some (total, next) ∧ next.width = builder.width ∧
      Staged next ∧ next.records = filled builder.records ((List.range' accepted left).map batch.row) ∧
      total + builder.records.length = accepted + next.records.length := by
  induction left generalizing accepted builder with
  | zero => exact ⟨accepted, builder, rfl, rfl, staged, rfl, rfl⟩
  | succ left ih =>
    rw [Builder.pushRows, List.range'_succ, List.map_cons, filled]
    by_cases full : builder.isFull = true
    · rw [if_pos full, if_pos ((isFull_iff staged).mp full)]
      exact ⟨accepted, builder, rfl, rfl, staged, rfl, rfl⟩
    · rw [if_neg full, if_neg (fun is => full ((isFull_iff staged).mpr is))]
      have whole : (((List.range builder.width).map fun column =>
          (column, ((batch.columns[column]?).bind (·[accepted]?)).getD .null)).map Prod.fst).Perm
          (List.range builder.width) := by
        rw [List.map_map]
        exact List.Perm.of_eq (List.map_id _)
      obtain ⟨pushed, ran, width, still, grown⟩ := staged_pushRow staged whole
      rw [← fits, rowOf_batch batch (by omega)] at grown
      obtain ⟨total, next, rest, same, done, rows, count⟩ := ih still (fits.trans width.symm) (accepted + 1) (by omega)
      have longer := congrArg List.length grown
      rw [List.length_append, List.length_singleton] at longer
      exact ⟨total, next, by rw [ran]; exact rest, same.trans width, done, grown ▸ rows, by omega⟩

theorem received_columns (columns : List (List Value)) (first column : Nat) :
    received ((columns.zipIdx first).flatMap fun (cells, place) => cells.map (place, ·)) column =
      if column < first then [] else (columns[column - first]?).getD [] := by
  induction columns generalizing first with
  | nil => split <;> rfl
  | cons cells columns ih =>
    have own : ((cells.map fun cell => (first, cell)).filter (·.1 == column)).map Prod.snd =
        if first = column then cells else [] := by
      by_cases same : first = column
      · simp [same, List.filter_map, Function.comp_def]
      · simp [same, List.filter_map, Function.comp_def]
    have later := ih (first + 1)
    rw [received] at later ⊢
    rw [List.zipIdx_cons, List.flatMap_cons, List.filter_append, List.map_append, own, later]
    rcases Nat.lt_trichotomy column first with before | here | after
    · rw [if_neg (by omega), if_pos (by omega), if_pos before]
      rfl
    · rw [if_pos here.symm, if_pos (by omega), if_neg (by omega), here, Nat.sub_self]
      exact List.append_nil _
    · have step : column - first = column - (first + 1) + 1 := by omega
      rw [if_neg (by omega), if_neg (by omega), if_neg (by omega), step]
      rfl

theorem staged_pushOwned (staged : Staged builder) (batch : ColumnBatch Value) (fits : batch.width = builder.width) :
    ∃ next, builder.pushOwned batch = some (.ok batch.rows, next) ∧ next.width = builder.width ∧ Staged next ∧
      next.records = builder.records ++ batch.records := by
  rw [Builder.pushOwned, if_neg (not_not_intro fits)]
  have wide : batch.columns.length = builder.width := fits
  split
  · next empty =>
    have none : builder.records = [] := by rw [← List.length_eq_zero_iff, records_length, ← beq_iff_eq]; exact empty
    have height {whole : Builder} (columns : whole.columns = batch.columns) : whole.rows = batch.rows :=
      rows_eq (columns ▸ batch.square) (columns ▸ batch.wide)
    refine ⟨_, rfl, rfl, ⟨staged.positive, wide, square_of_length batch.square, tally_flatten _ _⟩, ?_⟩
    rw [none, Builder.records, height rfl]
    rfl
  · have shape : ∀ column < builder.width, received (batch.columns.zipIdx.flatMap fun (cells, place) =>
        cells.map (place, ·)) column = (batch.columns[column]?).getD [] := by
      intro column inside
      rw [received_columns, if_neg (Nat.not_lt_zero _), Nat.sub_zero]
    have inside : ∀ cell ∈ batch.columns.zipIdx.flatMap fun (cells, place) => cells.map (place, ·),
        cell.1 < builder.width := by
      intro cell member
      obtain ⟨⟨cells, place⟩, there, own⟩ := List.mem_flatMap.mp member
      obtain ⟨value, -, rfl⟩ := List.mem_map.mp own
      have bound := (List.mk_mem_zipIdx_iff_getElem?.mp there)
      exact wide ▸ (List.getElem?_eq_some_iff.mp bound).1
    obtain ⟨next, ran, width, still, rows⟩ := staged_pushCells staged _ inside fun column within => by
      rw [shape column within, List.getElem?_eq_getElem (wide ▸ within)]
      exact batch.square _ (List.getElem_mem _)
    refine ⟨next, by rw [ran]; rfl, width, still, ?_⟩
    rw [rows, ColumnBatch.records]
    refine congrArg (_ ++ ·) (List.map_congr_left fun row _ => ?_)
    rw [ColumnBatch.row]
    conv => rhs; rw [← filterMap_range batch.columns, List.filterMap_filterMap]
    rw [wide]
    refine List.filterMap_congr fun column within => ?_
    rw [shape column (List.mem_range.mp within)]
    cases batch.columns[column]? <;> simp

theorem staged_pushBatch (staged : Staged builder) (batch : ColumnBatch Value) (fits : batch.width = builder.width) :
    ∃ next, builder.pushBatch batch = some
      (.ok ((filled builder.records batch.records).length - builder.records.length), next) ∧
      next.width = builder.width ∧ Staged next ∧ next.records = filled builder.records batch.records := by
  obtain ⟨total, next, ran, width, still, rows, count⟩ :=
    staged_pushRows staged batch fits batch.rows 0 (Nat.zero_add _)
  rw [← List.range_eq_range'] at rows
  refine ⟨next, ?_, width, still, rows⟩
  rw [Builder.pushBatch, if_neg (not_not_intro fits), ran, ColumnBatch.records, ← rows]
  exact congrArg some (congrArg (·, next) (congrArg Except.ok (by omega)))

/-- Where the loop of `split_sealable` stops: within the limits but for the last row. -/
theorem sealable_spec (square : ∀ column ∈ columns, column.length = rows) (left taken : Nat)
    (total : taken + left = rows)
    (low : taken ≤ chunkMaxRows) (last : taken = 0 ∨ front columns (taken - 1) < chunkTargetBytes) :
    ∃ upTo, Builder.sealable columns left taken (front columns taken) = some (upTo, front columns upTo) ∧
      filled (recordsTo columns taken) ((List.range' taken left).map fun row => columns.filterMap (·[row]?)) =
        recordsTo columns upTo ∧ taken ≤ upTo ∧ upTo ≤ rows ∧ upTo ≤ chunkMaxRows ∧
      (upTo = 0 ∨ front columns (upTo - 1) < chunkTargetBytes) ∧ (taken = 0 → 0 < left → 0 < upTo) := by
  induction left generalizing taken with
  | zero => exact ⟨taken, rfl, rfl, Nat.le_refl _, by omega, low, last, fun _ some => absurd some (Nat.lt_irrefl 0)⟩
  | succ left ih =>
    have length : (recordsTo columns taken).length = taken := by rw [recordsTo, List.length_map, List.length_range]
    rw [Builder.sealable, List.range'_succ, List.map_cons, filled, length, tally_recordsTo square (by omega)]
    split
    · next room =>
      obtain ⟨read, bytes⟩ := front_succ square (by omega : taken < rows)
      obtain ⟨upTo, ran, takes, more, inside, high, ending, -⟩ := ih (taken + 1) (by omega) room.1 (.inr room.2)
      refine ⟨upTo, ?_, ?_, by omega, inside, high, ending, fun _ _ => by omega⟩
      · rw [read, ← ran, bytes]
        rfl
      · rw [if_neg (by omega), ← takes, recordsTo, recordsTo, List.range_succ, List.map_append]
        rfl
    · next full =>
      refine ⟨taken, rfl, if_pos (by omega), Nat.le_refl _, by omega, low, last, fun start _ => ?_⟩
      subst start
      rw [front_zero] at full
      exact absurd ⟨by decide, by decide⟩ full

/-- The same rows of every column, with the bytes they take, are staged as the whole was. -/
theorem staged_cut (staged : Staged builder) {cut : Builder} {part : List Value → List Value} {rows : Nat}
    (width : cut.width = builder.width) (columns : cut.columns = builder.columns.map part)
    (parted : ∀ column : List Value, column.length = builder.rows → (part column).length = rows)
    (bytes : cut.estimatedBytes = tally (fun column => tally cellWidth (part column)) builder.columns) :
    Staged cut where
  positive := width ▸ staged.positive
  wide := by rw [columns, List.length_map, width, staged.wide]
  square := by
    refine square_of_length (n := rows) fun column inside => ?_
    rw [columns] at inside
    obtain ⟨whole, member, rfl⟩ := List.mem_map.mp inside
    exact parted whole (staged.square whole member)
  counted := by rw [bytes, columns, tally_map]

theorem staged_take (staged : Staged builder) (upTo : Nat) {cut : Builder} (width : cut.width = builder.width)
    (columns : cut.columns = builder.columns.map (·.take upTo))
    (bytes : cut.estimatedBytes = front builder.columns upTo) : Staged cut :=
  staged_cut staged width columns (fun column long => by rw [List.length_take, long]) bytes

theorem staged_drop (staged : Staged builder) (upTo : Nat) {cut : Builder} (width : cut.width = builder.width)
    (columns : cut.columns = builder.columns.map (·.drop upTo))
    (bytes : cut.estimatedBytes = builder.estimatedBytes - front builder.columns upTo) : Staged cut := by
  refine staged_cut staged width columns (fun column long => by rw [List.length_drop, long]) ?_
  rw [bytes, staged.counted, front_add builder.columns upTo, Nat.add_sub_cancel_left]

/-- Cutting rows off takes what they had been counted for. -/
theorem staged_truncate (staged : Staged builder) (rows : Nat) :
    ∃ next, builder.truncate rows = some next ∧ next.width = builder.width ∧ Staged next ∧
      next.records = builder.records.take rows ∧
      (rows < builder.rows → next.estimatedBytes = front builder.columns rows) := by
  rw [Builder.truncate]
  split
  · next all =>
    refine ⟨builder, rfl, rfl, staged, ?_, fun fewer => absurd all (Nat.not_le.mpr fewer)⟩
    rw [List.take_of_length_le (records_length builder ▸ all)]
  next fewer =>
  have enough : builder.columns.all (rows ≤ ·.length) = true := by
    refine List.all_eq_true.mpr fun column inside => decide_eq_true ?_
    rw [staged.square column inside]
    exact Nat.le_of_lt (Nat.not_le.mp fewer)
  have dropped : tally cellWidth (builder.columns.flatMap (·.drop rows)) =
      tally (fun column => tally cellWidth (column.drop rows)) builder.columns := by
    rw [List.flatMap_def, tally_flatten, tally_map]
  have whole := front_add builder.columns rows
  rw [← staged.counted] at whole
  have bytes : builder.estimatedBytes - tally cellWidth (builder.columns.flatMap (·.drop rows)) =
      front builder.columns rows := by omega
  rw [if_pos enough]
  dsimp only
  rw [if_pos (by omega)]
  refine ⟨_, rfl, rfl, staged_take staged rows rfl rfl bytes, ?_, fun _ => bytes⟩
  exact records_take rows (by omega) rfl

theorem splitSealable_spec (staged : Staged builder) :
    ∃ upTo head rest, builder.splitSealable = some (head, rest) ∧ upTo ≤ builder.rows ∧ upTo ≤ chunkMaxRows ∧
      (0 < builder.rows → 0 < upTo) ∧ (upTo = 0 ∨ front builder.columns (upTo - 1) < chunkTargetBytes) ∧
      head.records = filled [] builder.records ∧
      (head.width = builder.width ∧ head.columns = builder.columns.map (·.take upTo) ∧ Staged head) ∧
      rest.width = builder.width ∧ rest.columns = builder.columns.map (·.drop upTo) ∧ Staged rest := by
  obtain ⟨upTo, ran, takes, -, inside, low, ending, moves⟩ :=
    sealable_spec staged.square builder.rows 0 (Nat.zero_add _) (Nat.zero_le _) (.inl rfl)
  rw [front_zero] at ran
  have enough : builder.columns.all (upTo ≤ ·.length) = true := by
    refine List.all_eq_true.mpr fun column member => decide_eq_true ?_
    rw [staged.square column member]
    exact inside
  -- Taking every row hands the estimate over; it is what those rows take all the same.
  have handed : (if upTo = builder.rows then builder.estimatedBytes else front builder.columns upTo) =
      front builder.columns upTo := by
    split
    · next all => rw [all, front_all staged.square, staged.counted]
    · rfl
  have whole := front_add builder.columns upTo
  rw [← staged.counted] at whole
  refine ⟨upTo,
    { builder with columns := builder.columns.map (·.take upTo), estimatedBytes := front builder.columns upTo },
    { builder with
      columns := builder.columns.map (·.drop upTo)
      estimatedBytes := builder.estimatedBytes - front builder.columns upTo },
    ?_, inside, low, moves rfl, ending, ?_, ⟨rfl, rfl, staged_take staged upTo rfl rfl rfl⟩, rfl, rfl,
    staged_drop staged upTo rfl rfl rfl⟩
  · rw [Builder.splitSealable, ran]
    change (if builder.columns.all (upTo ≤ ·.length) = true then _ else _) = _
    rw [if_pos enough, handed, if_pos (by omega)]
  · rw [records_take upTo inside rfl, Builder.records, ← List.map_take, List.take_range, Nat.min_eq_left inside,
      List.range_eq_range' (n := builder.rows)]
    exact takes.symm

/-- Every call succeeds, keeps the builder's shape and its estimate, and does to the rows what it is for. -/
theorem staged_step (staged : Staged builder) (call : Call) (whole : call.Whole builder.width) :
    ∃ next, builder.step call = some next ∧ next.width = builder.width ∧ Staged next ∧
      next.records = call.rows builder.width builder.records := by
  cases call with
  | pushOwned batch =>
    rw [Builder.step, Call.rows]
    by_cases fits : batch.width = builder.width
    · obtain ⟨next, ran, width, still, rows⟩ := staged_pushOwned staged batch fits
      exact ⟨next, by rw [ran]; rfl, width, still, by rw [if_pos fits, rows]⟩
    · rw [if_neg fits, Builder.pushOwned, if_pos fits]
      exact ⟨builder, rfl, rfl, staged, rfl⟩
  | pushBatch batch =>
    rw [Builder.step, Call.rows]
    by_cases fits : batch.width = builder.width
    · obtain ⟨next, ran, width, still, rows⟩ := staged_pushBatch staged batch fits
      exact ⟨next, by rw [ran]; rfl, width, still, by rw [if_pos fits, rows]⟩
    · rw [if_neg fits, Builder.pushBatch, if_pos fits]
      exact ⟨builder, rfl, rfl, staged, rfl⟩
  | pushRow cells => exact staged_pushRow staged whole
  | truncate rows =>
    obtain ⟨next, ran, width, still, kept, -⟩ := staged_truncate staged rows
    exact ⟨next, ran, width, still, kept⟩
  | splitSealable =>
    obtain ⟨upTo, head, rest, ran, inside, -, -, -, takes, ⟨-, first, -⟩, width, second, still⟩ :=
      splitSealable_spec staged
    refine ⟨rest, by rw [Builder.step, ran]; rfl, width, still, ?_⟩
    rw [Call.rows, ← takes, records_cut upTo inside first second, List.drop_left]

theorem staged_of_reached (positive : 0 < width) (reached : Reached width builder rows) :
    builder.width = width ∧ Staged builder ∧ builder.records = rows := by
  induction reached with
  | new => exact ⟨rfl, staged_new positive, by rw [← List.length_eq_zero_iff, records_length]; cases width <;> rfl⟩
  | step reached whole ran ih =>
    obtain ⟨rfl, staged, rfl⟩ := ih
    obtain ⟨next, done, kept, still, rows⟩ := staged_step staged _ whole
    rw [ran] at done
    cases done
    exact ⟨kept, still, rows⟩
  | head reached split ih =>
    obtain ⟨rfl, staged, rfl⟩ := ih
    obtain ⟨upTo, first, second, done, -, -, -, -, takes, ⟨kept, -, still⟩, -⟩ := splitSealable_spec staged
    obtain ⟨rfl, -⟩ := Prod.mk.inj (Option.some.inj (split.symm.trans done))
    exact ⟨kept, still, takes⟩

/-- A chunk within the limits: it has rows, not too many, and without the last of them it is
not full. -/
def Sealable (head : Builder) : Prop :=
  (1 ≤ head.rows ∧ head.rows ≤ chunkMaxRows) ∧
    ∃ cut, head.truncate (head.rows - 1) = some cut ∧ cut.estimatedBytes < chunkTargetBytes

/-- Splitting until the builder is empty comes to an end, after as many turns as there are rows. -/
theorem splitAll_spec (staged : Staged builder) :
    ∃ heads, (∀ fuel, builder.rows < fuel → splitAll fuel builder = some heads) ∧
    heads.flatMap Builder.records = builder.records ∧ ∀ head ∈ heads, Sealable head := by
  induction size : builder.rows using Nat.strong_induction_on generalizing builder with
  | _ rows ih =>
    subst size
    rcases Nat.eq_zero_or_pos builder.rows with none | some
    · refine ⟨[], fun fuel enough => ?_, ?_, fun _ inside => absurd inside List.not_mem_nil⟩
      · cases fuel with
        | zero => exact absurd enough (Nat.not_lt_zero _)
        | succ fuel => rw [splitAll, Builder.isEmpty, none]; rfl
      · rw [Builder.records, none]
        rfl
    · obtain ⟨upTo, head, rest, ran, inside, low, moves, ending, -, ⟨-, first, stagedHead⟩, -, second,
        stagedRest⟩ := splitSealable_spec staged
      have fewer := rows_drop upTo second
      have height : head.rows = upTo := (rows_take upTo first).trans (Nat.min_eq_left inside)
      have moved := moves some
      obtain ⟨heads, done, whole, each⟩ := ih rest.rows (by omega) stagedRest rfl
      refine ⟨head :: heads, fun fuel enough => ?_, ?_, List.forall_mem_cons.mpr ⟨?_, each⟩⟩
      · cases fuel with
        | zero => exact absurd enough (Nat.not_lt_zero _)
        | succ fuel =>
          have left : ¬builder.isEmpty = true := by
            rw [Builder.isEmpty, beq_iff_eq]
            omega
          rw [splitAll, if_neg left, ran]
          change (splitAll fuel rest >>= fun heads => Option.some (head :: heads)) = _
          rw [done fuel (by omega)]
          rfl
      · rw [List.flatMap_cons, whole, ← records_cut upTo inside first second]
      · obtain ⟨cut, cutRan, -, -, -, bytes⟩ := staged_truncate stagedHead (head.rows - 1)
        refine ⟨⟨by omega, by omega⟩, cut, cutRan, ?_⟩
        rw [bytes (by omega), first, height]
        rcases ending with start | below
        · omega
        · refine Nat.lt_of_le_of_lt (Nat.le_of_eq ?_) below
          rw [front, tally_map, front]
          refine congrArg List.sum (List.map_congr_left fun column _ => ?_)
          rw [List.take_take, Nat.min_eq_left (by omega)]

/-- The builder neither loses rows nor overfills chunks: it holds the rows that the calls staged, its estimate and its
shape hold after any of them and no call fails, a push takes every row or says how many, and splitting it until it is
empty gives back its rows in chunks within the limits. -/
theorem chunks_hold_the_staged_rows (positive : 0 < width) (reached : Reached width builder rows) :
    builder.records = rows ∧
    (builder.columns.length = width ∧ (∀ column ∈ builder.columns, column.length = builder.rows) ∧
      builder.estimatedBytes = tally cellWidth builder.columns.flatten) ∧
    (∀ call : Call, call.Whole width → ∃ next, builder.step call = some next) ∧
    (∀ batch : ColumnBatch Value, batch.width = width →
      (∃ next, builder.pushOwned batch = some (.ok batch.rows, next)) ∧
      ∃ next, builder.pushBatch batch = some (.ok ((filled rows batch.records).length - rows.length), next)) ∧
    ∃ heads, (∀ fuel, rows.length < fuel → splitAll fuel builder = some heads) ∧
      heads.flatMap Builder.records = rows ∧ ∀ head ∈ heads, Sealable head := by
  obtain ⟨rfl, staged, rfl⟩ := staged_of_reached positive reached
  refine ⟨rfl, ⟨staged.wide, staged.square, ?_⟩, ?_, fun batch fits => ⟨?_, ?_⟩, ?_⟩
  · rw [staged.counted, tally_flatten]
  · intro call whole
    obtain ⟨next, ran, -⟩ := staged_step staged call whole
    exact ⟨next, ran⟩
  · obtain ⟨next, ran, -⟩ := staged_pushOwned staged batch fits
    exact ⟨next, ran⟩
  · obtain ⟨next, ran, -⟩ := staged_pushBatch staged batch fits
    exact ⟨next, ran⟩
  · rw [records_length]
    exact splitAll_spec staged

def longRow : List Value := [.array (List.replicate 131072 .null), .int 1]

def shortRows : ColumnBatch Value := ⟨[[.text "a", .text "b"], [.int 2, .null]], by decide, by decide⟩

theorem filled_long (row : List Value) (offered : List (List Value)) :
    filled [] (longRow :: row :: offered) = [longRow] := by
  have full : chunkTargetBytes ≤ tally (tally cellWidth) [longRow] := by
    have array (items : List Value) : cellWidth (.array items) = 9 + items.length * 16 := rfl
    rw [tally_cons, longRow, tally_cons, array, List.length_replicate, Nat.add_assoc]
    exact Nat.le_trans (by decide) (Nat.le_add_right _ _)
  rw [filled, if_neg (by decide), List.nil_append, filled, if_pos (.inr full)]

/-- Two columns: the row that fills a chunk is pushed cell by cell, two more as a batch, and the chunk is split off. -/
theorem chunks_hold_the_staged_rows_split : ∃ builder head rest,
    Reached 2 builder (longRow :: shortRows.records) ∧ builder.splitSealable = some (head, rest) ∧
      head.records = [longRow] ∧ rest.records = [[.text "a", .int 2], [.text "b", .null]] := by
  have calls {builder : Builder} {rows : List (List Value)} (reached : Reached 2 builder rows) :=
    (chunks_hold_the_staged_rows (by decide) reached).2.2.1
  have whole : (Call.pushRow [(1, .int 1), (0, .array (List.replicate 131072 .null))]).Whole 2 :=
    show ([1, 0] : List Nat).Perm [0, 1] from by decide
  obtain ⟨one, ran⟩ := calls .new _ whole
  have first : Reached 2 one [longRow] := .step .new whole ran
  obtain ⟨three, ran⟩ := calls first (.pushOwned shortRows) trivial
  have batched : (Call.pushOwned shortRows).Whole 2 := trivial
  have staged : Reached 2 three (longRow :: shortRows.records) := .step first batched ran
  obtain ⟨rest, ran⟩ := calls staged .splitSealable trivial
  have any : Call.splitSealable.Whole 2 := trivial
  have left := Reached.step staged any ran
  obtain ⟨⟨head, _⟩, split, rfl⟩ := Option.map_eq_some_iff.mp ran
  have taken := Reached.head staged split
  have cut : filled [] (longRow :: shortRows.records) = [longRow] := filled_long _ _
  rw [Call.rows, cut] at left
  rw [cut] at taken
  exact ⟨three, head, _, staged, split, (chunks_hold_the_staged_rows (by decide) taken).1,
    (chunks_hold_the_staged_rows (by decide) left).1⟩

end QueryHive.Store.Split
