import QueryHive.Library.Sections
import QueryHive.Store.CellText
import QueryHive.Store.Logical

/-! The `QHW1` buffer of a window. The writer lays out a header, the rows, the offsets of the texts
in the heap, the flags of the cells and the heap; the readers find each section again from the
number of rows and of columns. -/
namespace QueryHive.Store.Grid
open QueryHive.Columnar QueryHive.Library QueryHive.Library.Bytes QueryHive.Library.Sections QueryHive.Library.Text
open QueryHive.Store.Cell

/-- `StoreError`, as far as a window fails with it. -/
inductive WindowError where
  | invalidArgument (message : String)
  | corrupt (detail : ColumnarError)

/-- `StoreChunk`: the columns, their encodings and the bits of the grid. -/
structure StoreChunk extends SealedChunk where
  flags : ChunkFlags

/-- `WindowSpec`. -/
structure WindowSpec where
  rows : List UInt32
  columns : List Nat
  formats : List ColumnFormat
  globalFlags : UInt16

/-- `HEADER_LEN`. -/
def headerLen : Nat := 32

/-- `Window`. -/
structure Window where
  data : List UInt8
  firstRow : UInt32
  rowCount : UInt32
  columnCount : UInt32

namespace Window

/-- `source_rows`. -/
def sourceRows (window : Window) : Option (List UInt32) :=
  (List.range window.rowCount.toNat).mapM fun i => (readAt 4 window.data (headerLen + 4 * i)).map UInt32.ofNat

/-- `heap_len`. -/
def heapLen (window : Window) : Option Nat := readAt 4 window.data 24

def offsetAt (window : Window) (k : Nat) : Option Nat :=
  readAt 4 window.data (headerLen + 4 * window.rowCount.toNat + 4 * k)

/-- `cell_text`. -/
def cellText (window : Window) (row column : Nat) : Option String := do
  let r := window.rowCount.toNat
  let c := window.columnCount.toNat
  let index := row * c + column
  let s0 := headerLen + 4 * r
  let s1 := s0 + 4 * (r * c + 1)
  let heapLen ← readAt 4 window.data 24
  let s2 := s1 + r * c
  let start := min (← window.offsetAt index) heapLen
  let last := min (← window.offsetAt (index + 1)) heapLen
  let text ← slice window.data (s2 + start) (s2 + last)
  some (fromUtf8Lossy text)

/-- `cell_flags`. -/
def cellFlags (window : Window) (row column : Nat) : Option UInt8 :=
  let r := window.rowCount.toNat
  let c := window.columnCount.toNat
  let s1 := headerLen + 4 * r + 4 * (r * c + 1)
  window.data[s1 + row * c + column]?

end Window

/-- What the loop over the cells fills: the offsets, the flags and the heap. -/
structure Rendered where
  textOffsets : List Nat
  cellFlags : List UInt8
  heap : List UInt8

section
variable (outside : Outside) (chunk : StoreChunk) (spec : WindowSpec) (full : Bool)

def cellAt (row col c : Nat) (heap : List UInt8) : Except ColumnarError (CowCell × List UInt8) :=
  renderCellInto outside ((chunk.batch[col]?).getD (.null 0)) ((chunk.encodings[col]?).getD .null) row col
    ((spec.formats[c]?).getD .raw) full heap chunk.flags

def renderColumns (r row : Nat) : Nat → List Nat → Rendered → Except WindowError Rendered
  | _, [], state => .ok state
  | c, col :: columns, state =>
    match cellAt outside chunk spec full row col c state.heap with
    | .error detail => .error (.corrupt detail)
    | .ok (cell, heap) =>
      renderColumns r row (c + 1) columns
        { textOffsets := state.textOffsets ++ [heap.length % 2 ^ 32]
          cellFlags := state.cellFlags.set (r * spec.columns.length + c) cell.flags
          heap }

def renderRows : Nat → List UInt32 → Rendered → Except WindowError Rendered
  | _, [], state => .ok state
  | r, row :: rows, state =>
    if row.toNat ≥ Logical.numRows chunk.toSealedChunk then
      .error (.invalidArgument
        s!"window row {row.toNat} is out of range (chunk holds {Logical.numRows chunk.toSealedChunk} rows)")
    else do
      let state ← renderColumns outside chunk spec full r row.toNat 0 spec.columns state
      renderRows (r + 1) rows state

def renderCells : Except WindowError Rendered :=
  renderRows outside chunk spec full 0 spec.rows
    ⟨[0], List.replicate (spec.rows.length * spec.columns.length) 0, []⟩

/-- The header up to the length of the heap: `QHW1`, the version, the flags, the first row, the
rows, the columns and the rows that are visible. -/
def headerTop : List UInt8 :=
  [0x51, 0x48, 0x57, 0x31] ++ leBytes 2 1 ++ leBytes 2 spec.globalFlags.toNat ++
    leBytes 4 ((spec.rows.head?).getD 0).toNat ++ leBytes 4 spec.rows.length ++ leBytes 4 spec.columns.length ++
    leBytes 4 spec.rows.length

/-- The buffer. -/
def assemble (cells : Rendered) : List UInt8 :=
  headerTop spec ++ (leBytes 4 cells.heap.length ++ (leBytes 4 0 ++
    (tableBytes 4 (spec.rows.map UInt32.toNat) ++ (tableBytes 4 cells.textOffsets ++ (cells.cellFlags ++ cells.heap)))))

/-- `render_window`, with room in the scratch for so many cells. -/
def renderWindow (scratch : Nat) : Except WindowError Window :=
  if spec.formats.length ≠ spec.columns.length then
    .error (.invalidArgument
      s!"window asked for {spec.columns.length} columns but gave {spec.formats.length} formats")
  else if scratch < spec.columns.length then
    .error (.invalidArgument
      s!"window scratch holds {scratch} cells but {spec.columns.length} columns were asked for")
  else
    match spec.columns.find? (chunk.batch.length ≤ ·) with
    | some column =>
      .error (.invalidArgument s!"window column {column} is out of range (width {chunk.batch.length})")
    | none => do
      let cells ← renderCells outside chunk spec full
      .ok
        { data := assemble spec cells
          firstRow := (spec.rows.head?).getD 0
          rowCount := .ofNat spec.rows.length
          columnCount := .ofNat spec.columns.length }

end

def texts (cells : List CowCell) : List (List UInt8) := cells.map CowCell.text

/-- The first cells of so many are rendered. -/
structure Filled (total : Nat) (cells : List CowCell) (state : Rendered) : Prop where
  heap : state.heap = (texts cells).flatten
  offsets : state.textOffsets = (List.range (cells.length + 1)).map fun k =>
    ((texts cells).take k).flatten.length % 2 ^ 32
  flags : state.cellFlags = cells.map CowCell.flags ++ List.replicate (total - cells.length) 0

theorem filled_none (total : Nat) : Filled total [] ⟨[0], List.replicate total 0, []⟩ := ⟨rfl, rfl, rfl⟩

theorem filled_cell (filled : Filled total cells state) (room : cells.length < total) (cell : CowCell) :
    Filled total (cells ++ [cell])
      { textOffsets := state.textOffsets ++ [(state.heap ++ cell.text).length % 2 ^ 32]
        cellFlags := state.cellFlags.set cells.length cell.flags
        heap := state.heap ++ cell.text } where
  heap := by
    simp only [filled.heap, texts, List.map_append, List.flatten_append, List.map_singleton, List.flatten_singleton]
  offsets := by
    have length : (texts cells).length = cells.length := List.length_map _
    have whole : texts (cells ++ [cell]) = texts cells ++ [cell.text] := List.map_append
    have count : (cells ++ [cell]).length = cells.length + 1 := List.length_append
    rw [count, List.range_succ, List.map_append, List.map_singleton, whole]
    simp only [filled.offsets]
    refine congrArg₂ (· ++ ·) (List.map_congr_left fun k inside => ?_) ?_
    · have low : k ≤ (texts cells).length := by
        have := List.mem_range.mp inside
        omega
      rw [List.take_append_of_le_length low]
    · have all : (texts cells ++ [cell.text]).take (cells.length + 1) = texts cells ++ [cell.text] :=
        List.take_of_length_le (by rw [List.length_append, length]; exact Nat.le_refl _)
      rw [all, filled.heap, List.flatten_append, List.flatten_singleton]
  flags := by
    have rest : total - cells.length = total - (cells.length + 1) + 1 := by omega
    have length : (cells.map CowCell.flags).length = cells.length := List.length_map _
    simp only [filled.flags]
    rw [rest, List.replicate_succ, ← length, List.set_append_right _ _ (Nat.le_refl _), Nat.sub_self,
      List.set_cons_zero,
      List.map_append, List.map_singleton, List.append_assoc, List.singleton_append, List.length_append, length]
    rfl

section
variable {outside : Outside} {chunk : StoreChunk} {spec : WindowSpec} {full : Bool}

/-- What `render_cell_into` makes of a row and a column, whatever the heap holds. -/
def Renders (outside : Outside) (chunk : StoreChunk) (spec : WindowSpec) (full : Bool) (row col c : Nat)
    (cell : CowCell) :
    Prop :=
  (∃ text, cell.text = utf8 text) ∧
    ∀ heap, cellAt outside chunk spec full row col c heap = .ok (cell, heap ++ cell.text)

theorem renderColumns_spec (columns : List Nat) {cells : List CowCell} {state : Rendered}
    (ran : renderColumns outside chunk spec full r row c columns state = .ok next) (filled : Filled total cells state)
    (place : cells.length = r * spec.columns.length + c) (room : cells.length + columns.length ≤ total) :
    ∃ more, more.length = columns.length ∧ Filled total (cells ++ more) next ∧
      ∀ i col, columns[i]? = some col → ∃ cell, more[i]? = some cell ∧
        Renders outside chunk spec full row col (c + i) cell := by
  induction columns generalizing c cells state with
  | nil =>
    cases ran
    exact ⟨[], rfl, (List.append_nil cells).symm ▸ filled, nofun⟩
  | cons col columns ih =>
    rw [renderColumns] at ran
    split at ran
    · cases ran
    next cell heap rendered =>
    obtain ⟨text, same⟩ := renderCellInto_ok outside rendered
    have grown : heap = state.heap ++ cell.text := by
      have again := same state.heap
      rw [show renderCellInto _ _ _ _ _ _ _ _ _ = _ from rendered] at again
      exact (Prod.mk.inj (Except.ok.inj again)).2
    rw [List.length_cons] at room
    have now := filled_cell filled (by omega) cell
    rw [place, ← grown] at now
    obtain ⟨more, length, done, each⟩ := ih ran now (by rw [List.length_append, place]; exact Nat.add_assoc ..)
      (by rw [List.length_append, List.length_singleton]; omega)
    refine ⟨cell :: more, by rw [List.length_cons, length, List.length_cons], ?_, ?_⟩
    · rwa [List.append_assoc] at done
    · intro i other there
      cases i with
      | zero =>
        cases there
        exact ⟨cell, rfl, text, same⟩
      | succ i =>
        obtain ⟨found, inside, renders⟩ := each i other there
        have step : c + (i + 1) = c + 1 + i := by omega
        exact ⟨found, inside, step ▸ renders⟩

theorem renderRows_spec (rows : List UInt32) {cells : List CowCell} {state : Rendered}
    (ran : renderRows outside chunk spec full r rows state = .ok next) (filled : Filled total cells state)
    (place : cells.length = r * spec.columns.length) (room : cells.length + rows.length * spec.columns.length ≤ total) :
    ∃ more, more.length = rows.length * spec.columns.length ∧ Filled total (cells ++ more) next ∧
      ∀ (i : Nat) (row : UInt32) (j col : Nat), rows[i]? = some row → spec.columns[j]? = some col →
        ∃ cell, more[i * spec.columns.length + j]? = some cell ∧
          Renders outside chunk spec full row.toNat col j cell := by
  induction rows generalizing r cells state with
  | nil =>
    cases ran
    exact ⟨[], (Nat.zero_mul _).symm, (List.append_nil cells).symm ▸ filled, nofun⟩
  | cons row rows ih =>
    rw [renderRows] at ran
    split at ran
    · cases ran
    obtain ⟨middle, first, ran⟩ := Result.bind_ok_iff.mp ran
    rw [List.length_cons, Nat.succ_mul] at room
    obtain ⟨own, width, here, cellsHere⟩ := renderColumns_spec spec.columns first filled place (by omega)
    obtain ⟨more, length, done, cellsThere⟩ := ih ran here
      (by rw [List.length_append, place, width, Nat.succ_mul]) (by rw [List.length_append, width]; omega)
    refine ⟨own ++ more, ?_, ?_, ?_⟩
    · rw [List.length_append, width, length, List.length_cons, Nat.succ_mul, Nat.add_comm]
    · rwa [List.append_assoc] at done
    · intro i other j col there inside
      have bound := (List.getElem?_eq_some_iff.mp inside).1
      cases i with
      | zero =>
        cases there
        obtain ⟨cell, found, renders⟩ := cellsHere j col inside
        rw [Nat.zero_add] at renders
        refine ⟨cell, ?_, renders⟩
        rw [Nat.zero_mul, Nat.zero_add, List.getElem?_append_left (width.symm ▸ bound), found]
      | succ i =>
        obtain ⟨cell, found, renders⟩ := cellsThere i other j col there inside
        refine ⟨cell, ?_, renders⟩
        have past : (i + 1) * spec.columns.length + j = own.length + (i * spec.columns.length + j) := by
          rw [width, Nat.succ_mul]
          omega
        rw [past, List.getElem?_append_right (Nat.le_add_right _ _), Nat.add_sub_cancel_left, found]

theorem renderCells_spec (ran : renderCells outside chunk spec full = .ok state) :
    ∃ cells, cells.length = spec.rows.length * spec.columns.length ∧
      Filled (spec.rows.length * spec.columns.length) cells state ∧
      ∀ (i : Nat) (row : UInt32) (j col : Nat), spec.rows[i]? = some row → spec.columns[j]? = some col →
        ∃ cell, cells[i * spec.columns.length + j]? = some cell ∧
          Renders outside chunk spec full row.toNat col j cell := by
  obtain ⟨cells, length, filled, each⟩ := renderRows_spec spec.rows ran (filled_none _) (Nat.zero_mul _).symm
    (Nat.le_of_eq (Nat.zero_add _))
  exact ⟨cells, length, filled, each⟩

theorem length_headerTop (spec : WindowSpec) : (headerTop spec).length = 24 := by
  simp only [headerTop, List.length_append, length_leBytes]
  rfl

theorem texts_length (cells : List CowCell) : (texts cells).length = cells.length := List.length_map _

theorem renderWindow_ok (accepted : renderWindow outside chunk spec full scratch = .ok window)
    (ran : renderCells outside chunk spec full = .ok state) :
    window = ⟨assemble spec state, (spec.rows.head?).getD 0, .ofNat spec.rows.length, .ofNat spec.columns.length⟩ := by
  unfold renderWindow at accepted
  split at accepted
  · cases accepted
  split at accepted
  · cases accepted
  split at accepted
  · cases accepted
  rw [ran] at accepted
  exact (Except.ok.inj accepted).symm

variable {state : Rendered} {cells : List CowCell}

theorem filled_lengths (filled : Filled total cells state) (whole : cells.length = total) :
    state.textOffsets.length = total + 1 ∧ state.cellFlags.length = total := by
  constructor
  · rw [filled.offsets, List.length_map, List.length_range, whole]
  · rw [filled.flags, List.length_append, List.length_map, List.length_replicate, whole, Nat.sub_self, Nat.add_zero]

theorem assemble_length (filled : Filled total cells state) (whole : cells.length = total) :
    (assemble spec state).length = headerLen + 4 * spec.rows.length + 4 * (total + 1) + total + state.heap.length := by
  obtain ⟨offsets, flags⟩ := filled_lengths filled whole
  simp only [assemble, List.length_append, length_headerTop, length_leBytes, length_tableBytes,
    List.length_map, offsets,
    flags, headerLen]
  omega

theorem heapLen_assemble (spec : WindowSpec) (light : state.heap.length < 2 ^ 32) (first rows columns : UInt32) :
    Window.heapLen ⟨assemble spec state, first, rows, columns⟩ = some state.heap.length := by
  have read := readAt_front (headerTop spec) 4 state.heap.length (leBytes 4 0 ++
    (tableBytes 4 (spec.rows.map UInt32.toNat) ++ (tableBytes 4 state.textOffsets ++ (state.cellFlags ++ state.heap))))
  rw [length_headerTop, Nat.mod_eq_of_lt (show state.heap.length < 256 ^ 4 from light)] at read
  exact read

def header (spec : WindowSpec) (state : Rendered) : List UInt8 :=
  headerTop spec ++ (leBytes 4 state.heap.length ++ leBytes 4 0)

theorem length_header (spec : WindowSpec) (state : Rendered) : (header spec state).length = headerLen := by
  rw [header, List.length_append, length_headerTop, List.length_append, length_leBytes, length_leBytes]
  rfl

theorem assemble_eq (spec : WindowSpec) (state : Rendered) : assemble spec state =
    header spec state ++ (tableBytes 4 (spec.rows.map UInt32.toNat) ++
      (tableBytes 4 state.textOffsets ++ (state.cellFlags ++ state.heap))) := by
  simp only [assemble, header, List.append_assoc]

theorem row_at (place : spec.rows[i]? = some row) :
    readAt 4 (assemble spec state) (headerLen + 4 * i) = some row.toNat := by
  have there : (spec.rows.map UInt32.toNat)[i]? = some row.toNat := by rw [List.getElem?_map, place]; rfl
  have read := readAt_table (header spec state) 4
    (tableBytes 4 state.textOffsets ++ (state.cellFlags ++ state.heap)) there
  rw [length_header, Nat.mod_eq_of_lt (show row.toNat < 256 ^ 4 from row.toNat_lt)] at read
  rw [assemble_eq, read]

theorem length_rows (spec : WindowSpec) (state : Rendered) :
    (header spec state ++ tableBytes 4 (spec.rows.map UInt32.toNat)).length = headerLen + 4 * spec.rows.length := by
  rw [List.length_append, length_header, length_tableBytes, List.length_map]

theorem offset_at (place : state.textOffsets[k]? = some offset) (small : offset < 2 ^ 32) :
    readAt 4 (assemble spec state) (headerLen + 4 * spec.rows.length + 4 * k) = some offset := by
  have read := readAt_table (header spec state ++ tableBytes 4 (spec.rows.map UInt32.toNat)) 4
    (state.cellFlags ++ state.heap) place
  rw [length_rows, Nat.mod_eq_of_lt (show offset < 256 ^ 4 from small), List.append_assoc] at read
  rw [assemble_eq, read]

/-- Everything before the flags. -/
theorem length_offsets (spec : WindowSpec) (filled : Filled total cells state) (whole : cells.length = total) :
    (header spec state ++ tableBytes 4 (spec.rows.map UInt32.toNat) ++ tableBytes 4 state.textOffsets).length =
      headerLen + 4 * spec.rows.length + 4 * (total + 1) := by
  rw [List.length_append, length_rows, length_tableBytes, (filled_lengths filled whole).1]

theorem flag_at (spec : WindowSpec) (filled : Filled total cells state) (whole : cells.length = total)
    (place : cells[k]? = some cell) :
    (assemble spec state)[headerLen + 4 * spec.rows.length + 4 * (total + 1) + k]? = some cell.flags := by
  have inside : k < cells.length := (List.getElem?_eq_some_iff.mp place).1
  have there : state.cellFlags[k]? = some cell.flags := by
    rw [filled.flags, List.getElem?_append_left (by rw [List.length_map]; exact inside), List.getElem?_map, place]
    rfl
  have bound : k < state.cellFlags.length := (filled_lengths filled whole).2.symm ▸ whole ▸ inside
  rw [assemble_eq, ← List.append_assoc, ← List.append_assoc, ← length_offsets spec filled whole,
    List.getElem?_append_right (Nat.le_add_right _ _), Nat.add_sub_cancel_left, List.getElem?_append_left bound, there]

/-- The heap's part between two offsets is the text of the cell. -/
theorem text_at (filled : Filled total cells state) (whole : cells.length = total) (place : cells[k]? = some cell) :
    slice (assemble spec state)
      (headerLen + 4 * spec.rows.length + 4 * (total + 1) + total + ((texts cells).take k).flatten.length)
      (headerLen + 4 * spec.rows.length + 4 * (total + 1) + total + ((texts cells).take (k + 1)).flatten.length) =
      some cell.text := by
  have there : (texts cells)[k]? = some cell.text := by
    rw [texts, List.getElem?_map, place]
    rfl
  have cut := slice_part (header spec state ++ tableBytes 4 (spec.rows.map UInt32.toNat) ++
    tableBytes 4 state.textOffsets ++ state.cellFlags) there
  have start := length_offsets spec filled whole
  rw [List.length_append, start, (filled_lengths filled whole).2] at cut
  rw [assemble_eq, filled.heap, ← cut]
  simp only [List.append_assoc]

/-- The lengths of the first texts only grow. -/
theorem prefix_le (parts : List (List UInt8)) (low : j ≤ k) :
    (parts.take j).flatten.length ≤ (parts.take k).flatten.length := by
  have split : parts.take k = parts.take j ++ (parts.drop j).take (k - j) := by
    rw [← List.take_add, Nat.add_sub_cancel' low]
  rw [split, List.flatten_append, List.length_append]
  exact Nat.le_add_right _ _

theorem offset_of_filled (spec : WindowSpec) (filled : Filled total cells state) (whole : cells.length = total)
    (light : state.heap.length < 2 ^ 32) (low : k ≤ total) :
    ((texts cells).take k).flatten.length ≤ state.heap.length ∧
      readAt 4 (assemble spec state) (headerLen + 4 * spec.rows.length + 4 * k) =
        some ((texts cells).take k).flatten.length := by
  have most : ((texts cells).take k).flatten.length ≤ state.heap.length := by
    have grows := prefix_le (texts cells) (whole.symm ▸ low : k ≤ cells.length)
    rwa [← texts_length, List.take_length, ← filled.heap] at grows
  refine ⟨most, offset_at ?_ (Nat.lt_of_le_of_lt most light)⟩
  rw [filled.offsets, List.getElem?_map, List.getElem?_range (by omega), Option.map_some,
    Nat.mod_eq_of_lt (Nat.lt_of_le_of_lt most light)]

def OffsetTable (window : Window) (entries last : Nat) : Prop :=
  ∃ table : List Nat, table.length = entries + 1 ∧ (∀ k ≤ entries, window.offsetAt k = table[k]?) ∧
    table.Pairwise (· ≤ ·) ∧ table[0]? = some 0 ∧ table[entries]? = some last

theorem offsetTable_of_filled (filled : Filled total cells state) (whole : cells.length = total)
    (light : state.heap.length < 2 ^ 32) {window : Window} (data : window.data = assemble spec state)
    (count : window.rowCount.toNat = spec.rows.length) : OffsetTable window total state.heap.length := by
  have entry : ∀ k, k ≤ total → ((List.range (total + 1)).map fun k => ((texts cells).take k).flatten.length)[k]? =
      some ((texts cells).take k).flatten.length := by
    intro k low
    rw [List.getElem?_map, List.getElem?_range (by omega)]
    rfl
  refine ⟨(List.range (total + 1)).map fun k => ((texts cells).take k).flatten.length, ?_, ?_, ?_, ?_, ?_⟩
  · rw [List.length_map, List.length_range]
  · intro k low
    rw [Window.offsetAt, data, count, (offset_of_filled _ filled whole light low).2, entry k low]
  · refine List.pairwise_map.mpr (List.pairwise_lt_range.imp fun {j k} below => ?_)
    exact prefix_le (texts cells) (Nat.le_of_lt below)
  · rw [entry 0 (Nat.zero_le _)]
    rfl
  · rw [entry total (Nat.le_refl _), ← whole, ← texts_length, List.take_length, ← filled.heap]

/-- The readers find in the buffer what was rendered. The texts of the cells take less than 2^32
bytes, and the header has 32 bits for the rows and for the columns. -/
theorem window_decodes (accepted : renderWindow outside chunk spec full scratch = .ok window)
    (ran : renderCells outside chunk spec full = .ok state) (light : state.heap.length < 2 ^ 32)
    (rows : spec.rows.length < 2 ^ 32) (columns : spec.columns.length < 2 ^ 32) :
    window.data.length = headerLen + 4 * spec.rows.length + 4 * (spec.rows.length * spec.columns.length + 1) +
      spec.rows.length * spec.columns.length + state.heap.length ∧
    window.heapLen = some state.heap.length ∧
    OffsetTable window (spec.rows.length * spec.columns.length) state.heap.length ∧
    window.sourceRows = some spec.rows ∧
    ∀ (r : Nat) (row : UInt32) (c col : Nat), spec.rows[r]? = some row → spec.columns[c]? = some col →
      ∃ cell text, cell.text = utf8 text ∧
        (∀ heap, cellAt outside chunk spec full row.toNat col c heap = .ok (cell, heap ++ cell.text)) ∧
        window.cellText r c = some text ∧ window.cellFlags r c = some cell.flags := by
  obtain ⟨cells, whole, filled, each⟩ := renderCells_spec ran
  have high : (UInt32.ofNat spec.rows.length).toNat = spec.rows.length := UInt32.toNat_ofNat_of_lt' rows
  have wide : (UInt32.ofNat spec.columns.length).toNat = spec.columns.length := UInt32.toNat_ofNat_of_lt' columns
  have heapLen := heapLen_assemble spec light ((spec.rows.head?).getD 0) (.ofNat spec.rows.length)
    (.ofNat spec.columns.length)
  rw [renderWindow_ok accepted ran]
  refine ⟨assemble_length filled whole, heapLen, offsetTable_of_filled filled whole light rfl high, ?_, ?_⟩
  · have read : (List.range spec.rows.length).mapM (fun i => (readAt 4 (assemble spec state) (headerLen + 4 * i)).map
        UInt32.ofNat) = some spec.rows := by
      refine mapM_places fun i row place => ?_
      rw [row_at place]
      exact congrArg some UInt32.ofNat_toNat
    rw [Window.sourceRows, high]
    exact read
  · intro r row c col there inside
    obtain ⟨cell, place, ⟨text, spelled⟩, renders⟩ := each r row c col there inside
    have bound := (List.getElem?_eq_some_iff.mp place).1
    rw [whole] at bound
    obtain ⟨most, start⟩ := offset_of_filled spec filled whole light (Nat.le_of_lt bound)
    obtain ⟨most', last⟩ := offset_of_filled spec filled whole light bound
    refine ⟨cell, text, spelled, renders, ?_, ?_⟩
    · have header : readAt 4 (assemble spec state) 24 = some state.heap.length := heapLen
      simp only [Window.cellText, Window.offsetAt, high, wide, header, start, last, Nat.min_eq_left most,
        Nat.min_eq_left most', Option.bind_eq_bind, Option.bind_some, text_at filled whole place, spelled,
        fromUtf8Lossy_utf8]
    · simp only [Window.cellFlags, high, wide, Nat.add_assoc]
      have flag := flag_at spec filled whole place
      simp only [Nat.add_assoc] at flag
      exact flag

end

/-- A renderer for texts that are one cluster, no JSON and no number. -/
def plain : Outside := ⟨⟨fun _ => "1.5", fun _ => "1.5e0", fun _ => 0⟩, fun text => [text], fun _ => none,
    fun _ => none⟩

def numbersAndTexts : StoreChunk :=
  ⟨⟨[.int64 [some 7, none, some (-42)], .utf8 [some "ab", some "é", none]], [.i64, .text]⟩, ⟨[]⟩⟩

/-- Rows out of order and one of them twice, and the columns the other way round. -/
def mixedRows : WindowSpec := ⟨[2, 0, 1, 0], [1, 0], [.raw, .raw], 3⟩

theorem window_decodes_repeated : ∃ window, renderWindow plain numbersAndTexts mixedRows false 2 = .ok window ∧
    window.heapLen = some 11 ∧ OffsetTable window 8 11 ∧ window.sourceRows = some [2, 0, 1, 0] ∧
    window.cellText 2 0 = some "é" ∧ window.cellText 3 1 = some "7" := by
  let state : Rendered := ⟨[0, 0, 3, 5, 6, 8, 8, 10, 11], [1, 0, 0, 0, 0, 1, 0, 0], utf8 "-42ab7éab7"⟩
  have accepted : renderWindow plain numbersAndTexts mixedRows false 2 = .ok ⟨assemble mixedRows state, 2, 4, 2⟩ := rfl
  have ran : renderCells plain numbersAndTexts mixedRows false = .ok state := rfl
  obtain ⟨-, heap, table, rows, cells⟩ := window_decodes accepted ran (by decide) (by decide) (by decide)
  have told {r c : Nat} {row : UInt32} {col : Nat} (there : mixedRows.rows[r]? = some row)
    (inside : mixedRows.columns[c]? = some col)
      {cell : CowCell} {text : String}
      (rendered : cellAt plain numbersAndTexts mixedRows false row.toNat col c [] = .ok (cell, utf8 text)) :
      Window.cellText ⟨assemble mixedRows state, 2, 4, 2⟩ r c = some text := by
    obtain ⟨cell', text', spelled, again, shown, -⟩ := cells r row c col there inside
    have same : utf8 text = cell'.text := congrArg Prod.snd (Except.ok.inj (rendered.symm.trans (again [])))
    rw [spelled] at same
    rw [shown, ← fromUtf8Lossy_utf8 text, same, fromUtf8Lossy_utf8]
  have second : mixedRows.rows[2]? = some 1 := rfl
  have last : mixedRows.rows[3]? = some 0 := rfl
  exact ⟨_, accepted, heap, table, rows, told second rfl rfl, told last rfl rfl⟩

def oneNull : StoreChunk := ⟨⟨[.null 1], [.null]⟩, ⟨[]⟩⟩

/-- So many times the first row, and no column of it. -/
def rowsAlone (count : Nat) : WindowSpec := ⟨List.replicate count 0, [], [], 0⟩

/-- The first row, and so many times its one column. -/
def columnsAlone (count : Nat) : WindowSpec := ⟨[0], List.replicate count 0, List.replicate count .raw, 0⟩

theorem renderRows_alone (outside : Outside) (spec : WindowSpec) (none : spec.columns = []) (count r : Nat)
    (state : Rendered) :
    renderRows outside oneNull spec true r (List.replicate count 0) state = .ok state := by
  induction count generalizing r with
  | zero => rfl
  | succ count ih =>
    have inside : ¬(0 : UInt32).toNat ≥ Logical.numRows oneNull.toSealedChunk := by decide
    rw [List.replicate_succ, renderRows, if_neg inside, none]
    exact ih (r + 1)

theorem renderCells_alone (outside : Outside) (count : Nat) :
    renderCells outside oneNull (rowsAlone count) true = .ok ⟨[0], List.replicate (count * 0) 0, []⟩ := by
  rw [renderCells, rowsAlone, renderRows_alone outside _ rfl, List.length_replicate]
  rfl

theorem sourceRows_alone (outside : Outside) (count : Nat) (wraps : UInt32.ofNat count = 0) :
    ∃ window, renderWindow outside oneNull (rowsAlone count) true 0 = .ok window ∧ window.sourceRows = some [] := by
  refine ⟨⟨assemble (rowsAlone count) ⟨[0], List.replicate (count * 0) 0, []⟩, ((rowsAlone count).rows.head?).getD 0,
    .ofNat (rowsAlone count).rows.length, 0⟩, ?_, ?_⟩
  · have room : ¬0 < (rowsAlone count).columns.length := Nat.lt_irrefl 0
    rw [renderWindow, if_neg fun apart => apart rfl, if_neg room]
    change (renderCells outside oneNull (rowsAlone count) true >>= _) = _
    rw [renderCells_alone]
    rfl
  · have none : (UInt32.ofNat (rowsAlone count).rows.length).toNat = 0 := by
      rw [rowsAlone, List.length_replicate, wraps]
      rfl
    rw [Window.sourceRows, none]
    rfl

theorem renderColumns_alone (outside : Outside) (spec : WindowSpec) (count c : Nat) (state : Rendered)
    (clear : state.heap = []) :
    ∃ flags, renderColumns outside oneNull spec true 0 0 c (List.replicate count 0) state =
      .ok ⟨state.textOffsets ++ List.replicate count 0, flags, []⟩ := by
  induction count generalizing c state with
  | zero => exact ⟨state.cellFlags, by rw [← clear, List.replicate_zero, List.append_nil]; rfl⟩
  | succ count ih =>
    have null : cellAt outside oneNull spec true 0 0 c state.heap = .ok (⟨[], cellNull⟩, state.heap) := rfl
    rw [List.replicate_succ, renderColumns, null, clear]
    obtain ⟨flags, ran⟩ := ih (c + 1) ⟨state.textOffsets ++ [0],
      state.cellFlags.set (0 * spec.columns.length + c) cellNull, []⟩ rfl
    exact ⟨flags, by rw [← List.append_cons] at ran; exact ran⟩

theorem cellFlags_alone (outside : Outside) (count : Nat) (wraps : UInt32.ofNat (count + 1) = 0) :
    ∃ window state, renderWindow outside oneNull (columnsAlone (count + 1)) true (count + 1) = .ok window ∧
      renderCells outside oneNull (columnsAlone (count + 1)) true = .ok state ∧ state.heap = [] ∧
      window.cellFlags 0 0 = some 0 := by
  have width : (columnsAlone (count + 1)).columns.length = count + 1 := List.length_replicate
  obtain ⟨flags, ran⟩ := renderColumns_alone outside (columnsAlone (count + 1)) (count + 1) 0
    ⟨[0], List.replicate ((columnsAlone (count + 1)).rows.length * (columnsAlone (count + 1)).columns.length) 0, []⟩ rfl
  have cells : renderCells outside oneNull (columnsAlone (count + 1)) true =
      .ok ⟨[0] ++ List.replicate (count + 1) 0, flags, []⟩ := by
    have inside : ¬(0 : UInt32).toNat ≥ Logical.numRows oneNull.toSealedChunk := by decide
    rw [renderCells]
    change renderRows _ _ _ _ _ [0] _ = _
    rw [renderRows, if_neg inside]
    change (renderColumns _ _ _ _ _ 0 _ (List.replicate (count + 1) 0) _ >>= _) = _
    rw [ran]
    rfl
  refine ⟨⟨assemble (columnsAlone (count + 1)) ⟨[0] ++ List.replicate (count + 1) 0, flags, []⟩, 0, 1,
    .ofNat (columnsAlone (count + 1)).columns.length⟩, _, ?_, cells, rfl, ?_⟩
  · have formats : (columnsAlone (count + 1)).formats.length = (columnsAlone (count + 1)).columns.length := by
      rw [columnsAlone, List.length_replicate, List.length_replicate]
    have known : (columnsAlone (count + 1)).columns.find? (oneNull.batch.length ≤ ·) = none := by
      refine List.find?_eq_none.mpr fun column inside => ?_
      rw [List.eq_of_mem_replicate inside]
      decide
    rw [renderWindow, if_neg (not_not.mpr formats), if_neg (by rw [width]; exact Nat.lt_irrefl _), known, cells]
    rfl
  · rw [Window.cellFlags, width, wraps]
    rfl

/-- What the readers need of the numbers for which the header has 32 bits. -/
theorem header_counts_wrap :
    (¬∀ outside chunk spec full scratch window state, renderWindow outside chunk spec full scratch = .ok window →
      renderCells outside chunk spec full = .ok state → state.heap.length < 2 ^ 32 →
        window.sourceRows = some spec.rows) ∧
    ¬∀ outside chunk spec full scratch window state, renderWindow outside chunk spec full scratch = .ok window →
      renderCells outside chunk spec full = .ok state → state.heap.length < 2 ^ 32 → spec.rows.length < 2 ^ 32 →
      ∀ (r : Nat) (row : UInt32) (c col : Nat) cell, spec.rows[r]? = some row → spec.columns[c]? = some col →
        (∀ heap, cellAt outside chunk spec full row.toNat col c heap = .ok (cell, heap ++ cell.text)) →
        window.cellFlags r c = some cell.flags := by
  constructor
  · intro claimed
    obtain ⟨window, accepted, none⟩ := sourceRows_alone plain 4294967296 rfl
    have same := claimed plain oneNull _ true 0 window _ accepted (renderCells_alone plain _) (Nat.two_pow_pos 32)
    rw [none] at same
    have lengths := congrArg List.length (Option.some.inj same)
    rw [rowsAlone, List.length_replicate] at lengths
    cases lengths
  · intro claimed
    obtain ⟨window, state, accepted, ran, clear, zero⟩ := cellFlags_alone plain 4294967295 rfl
    have flag := claimed plain oneNull _ true _ window state accepted ran (clear ▸ Nat.two_pow_pos 32)
      (show 1 < 2 ^ 32 by decide) 0 0 0 0 ⟨[], cellNull⟩ rfl (List.getElem?_replicate_of_lt (by decide)) fun heap => by
        rw [List.append_nil]
        rfl
    rw [zero] at flag
    cases flag

end QueryHive.Store.Grid
