import Std.Data.TreeSet.Lemmas
import QueryHive.Store.SortedView

/-! The values a filter picker offers for a column. `distinct_values` walks the chunks in store
order and gives up past its limit; `FilterSpec::Values` reads and compares the cells again, on
its own. Of the values on offer each row is kept by exactly one. -/
namespace QueryHive.Store.Picker
open QueryHive.Store.Views Std

/-- `DistinctValues`. -/
structure DistinctValues where
  values : List (Option String)
  more : Bool

/-- What the walk has met: the normalized texts and whether there was a NULL. -/
structure Seen where
  texts : TreeSet String
  hasNull : Bool

/-- One cell; a cell that cannot be read is passed over. -/
def Seen.note (c : Collate) (seen : Seen) : Option Value → Seen
  | none => seen
  | some .null => { seen with hasNull := true }
  | some value => { seen with texts := seen.texts.insert (c.nfc ((c.toText value).getD "")) }

def Seen.count (seen : Seen) : Nat := seen.texts.size + if seen.hasNull then 1 else 0

/-- The walk over the cells of the column; it stops as soon as there are too many values. -/
def scanDistinct (c : Collate) (limit : Nat) : List (Option Value) → Seen → Option Seen
  | [], seen => some seen
  | cell :: cells, seen =>
    if limit < (seen.note c cell).count then none else scanDistinct c limit cells (seen.note c cell)

def columnCells (column : Nat) (references : List ChunkEntry) (chunks : List StoreChunk) : List (Option Value) :=
  (references.zip chunks).flatMap fun pair => (List.range pair.1.rows).map (valueOf pair.2 column)

/-- The values in the order of the picker: NULL first. -/
def Seen.values (seen : Seen) : List (Option String) :=
  (if seen.hasNull then [none] else []) ++ seen.texts.toList.map some

/-- `distinct_values`. -/
def distinctValues (c : Collate) (loads : Nat → Bool) (w : World) (column limit : Nat) :
    Except StoreError DistinctValues :=
  if w.columnCount ≤ column then
    .error (.invalidArgument s!"distinct column {column} is out of range (width {w.columnCount})")
  else do
    let chunks ← loadChunks loads w.chunks.zipIdx
    match scanDistinct c limit (columnCells column w.chunks chunks) ⟨∅, false⟩ with
    | none => .ok ⟨[], true⟩
    | some seen => .ok ⟨seen.values, false⟩

/-- The entry of the picker that a cell stands for. -/
def entryOf (c : Collate) : Value → Option String
  | .null => none
  | value => some (c.nfc ((c.toText value).getD ""))

theorem mem_values (seen : Seen) (entry : Option String) :
    entry ∈ seen.values ↔ (entry = none ∧ seen.hasNull = true) ∨ ∃ text ∈ seen.texts, entry = some text := by
  unfold Seen.values
  cases seen.hasNull <;> cases entry <;> simp

theorem values_nodup (seen : Seen) : seen.values.Nodup := by
  have apart : seen.texts.toList.Nodup :=
    TreeSet.distinct_toList.imp fun differ same => differ (LawfulEqCmp.compare_eq_iff_eq.mpr same)
  refine List.nodup_append.mpr ⟨?_, apart.map (Option.some_injective _), ?_⟩
  · cases seen.hasNull <;> simp
  · cases seen.hasNull <;> simp

theorem mem_note (c : Collate) (seen : Seen) (cell : Option Value) (entry : Option String) :
    entry ∈ (seen.note c cell).values ↔ entry ∈ seen.values ∨ ∃ value, cell = some value ∧ entry = entryOf c value := by
  cases cell with
  | none => simp [Seen.note]
  | some value =>
    cases value
    case null =>
      simp only [mem_values, Seen.note, entryOf, Option.some.injEq, exists_eq_left', and_true]
      constructor
      · rintro (null | text)
        · exact .inr null
        · exact .inl (.inr text)
      · rintro ((⟨null, _⟩ | text) | null)
        · exact .inl null
        · exact .inr text
        · exact .inl null
    all_goals
      simp only [mem_values, Seen.note, entryOf, Option.some.injEq, exists_eq_left', TreeSet.mem_insert,
        LawfulEqCmp.compare_eq_iff_eq]
      constructor
      · rintro (null | ⟨text, rfl | there, rfl⟩)
        · exact .inl (.inl null)
        · exact .inr rfl
        · exact .inl (.inr ⟨text, there, rfl⟩)
      · rintro ((null | ⟨text, there, rfl⟩) | rfl)
        · exact .inl null
        · exact .inr ⟨text, .inr there, rfl⟩
        · exact .inr ⟨_, .inl rfl, rfl⟩

theorem mem_scan (c : Collate) {cells : List (Option Value)} {before : Seen}
    (scanned : scanDistinct c limit cells before = some seen) (entry : Option String) :
    entry ∈ seen.values ↔ entry ∈ before.values ∨ ∃ value, some value ∈ cells ∧ entry = entryOf c value := by
  induction cells generalizing before with
  | nil =>
    cases scanned
    simp
  | cons cell cells ih =>
    rw [scanDistinct] at scanned
    split at scanned
    · cases scanned
    rw [ih scanned, mem_note, or_assoc]
    simp only [List.mem_cons, or_and_right, exists_or, eq_comm]

theorem mem_columnCells (column : Nat) (entries : List ChunkEntry) (value : Value) :
    some value ∈ columnCells column entries (entries.map (·.chunk)) ↔
      ∃ entry ∈ entries, ∃ row < entry.rows, valueOf entry.chunk column row = some value := by
  induction entries with
  | nil => simp [columnCells]
  | cons entry rest ih =>
    rw [columnCells] at ih ⊢
    rw [List.map_cons, List.zip_cons_cons, List.flatMap_cons, List.mem_append, ih]
    simp only [List.mem_map, List.mem_range, List.exists_mem_cons_iff]

theorem distinctValues_ok (listed : distinctValues c loads w column limit = .ok ⟨values, false⟩) :
    column < w.columnCount ∧ (∀ entry ∈ w.chunks.zipIdx, loads entry.2 = true) ∧ values.Nodup ∧
      ∀ entry, entry ∈ values ↔ ∃ chunk ∈ w.chunks, ∃ row < chunk.rows, ∃ value,
        valueOf chunk.chunk column row = some value ∧ entry = entryOf c value := by
  unfold distinctValues at listed
  split at listed
  · cases listed
  next inRange =>
  cases loaded : loadChunks loads w.chunks.zipIdx with
  | error e =>
    rw [loaded] at listed
    cases listed
  | ok chunks =>
    obtain ⟨rfl, all⟩ := load_chunks_ok loaded
    rw [loaded] at listed
    change (match scanDistinct _ _ _ _ with | none => _ | some seen => _) = _ at listed
    split at listed
    · cases listed
    next seen scanned =>
    cases listed
    refine ⟨Nat.not_le.mp inRange, all, values_nodup seen, fun entry => ?_⟩
    have start : entry ∉ (⟨∅, false⟩ : Seen).values := by simp [mem_values]
    rw [mem_scan c scanned, own_chunks, or_iff_right start]
    simp only [mem_columnCells]
    constructor
    · rintro ⟨value, ⟨chunk, member, row, inside, there⟩, same⟩
      exact ⟨chunk, member, row, inside, value, there, same⟩
    · rintro ⟨chunk, member, row, inside, value, there, same⟩
      exact ⟨value, ⟨chunk, member, row, inside, there⟩, same⟩

def onlyValue (column : Nat) (entry : Option String) : ViewSpec := ⟨none, [.values column [entry]], ""⟩

theorem matches_entry (idempotent : ∀ text, c.nfc (c.nfc text) = c.nfc text) (column : Nat) (met value : Value) :
    (FilterSpec.values column [entryOf c met]).matches c value = true ↔ entryOf c met = entryOf c value := by
  cases met <;> cases value <;> simp [FilterSpec.matches, entryOf, idempotent]

theorem keepsRow_entry (idempotent : ∀ text, c.nfc (c.nfc text) = c.nfc text) (met : Value)
    (there : valueOf chunk column row = some value) :
    keepsRow c (onlyValue column (entryOf c met)) chunk row = true ↔ entryOf c met = entryOf c value := by
  have blank : trimSearch "" = "" := rfl
  rw [← matches_entry idempotent column]
  simp [keepsRow, onlyValue, FilterSpec.column, there, blank]

/-- A listing that is not cut short has no repeats, each of its values alone keeps a row, and each
row of the store is kept by exactly one of them. NFC is idempotent and every cell can be read. -/
theorem picker_partitions (idempotent : ∀ text, c.nfc (c.nfc text) = c.nfc text)
    (readable : ∀ chunk ∈ w.chunks, ∀ row < chunk.rows, (valueOf chunk.chunk column row).isSome = true)
    (listed : distinctValues c loads w column limit = .ok ⟨values, false⟩) :
    values.Nodup ∧
    (∀ entry ∈ values, ∃ info, computeView c loads w (onlyValue column entry) = .ok info ∧
      info.rows = w.chunks.flatMap (scanEntry c (onlyValue column entry)) ∧ info.rows ≠ []) ∧
    ∀ chunk ∈ w.chunks, ∀ row < chunk.rows,
      ∃! entry, entry ∈ values ∧ keepsRow c (onlyValue column entry) chunk.chunk row = true := by
  obtain ⟨inRange, all, apart, met⟩ := distinctValues_ok listed
  refine ⟨apart, ?_, ?_⟩
  · intro entry member
    obtain ⟨chunk, there, row, inside, value, cell, rfl⟩ := (met entry).mp member
    have filters : ∀ filter ∈ (onlyValue column (entryOf c value)).filters, filter.column < w.columnCount := by
      intro filter only
      rw [List.mem_singleton.mp only]
      exact inRange
    obtain ⟨info, computed, rows⟩ := computeView_unsorted (c := c) filters all
    have scanned : info.rows = w.chunks.flatMap (scanEntry c (onlyValue column (entryOf c value))) := rows rfl
    refine ⟨info, computed, scanned, ?_⟩
    have kept := (keepsRow_entry idempotent value cell).mpr rfl
    have shown : asU32 (chunk.firstRow + asU32 row) ∈ scanEntry c (onlyValue column (entryOf c value)) chunk :=
      List.mem_map_of_mem (List.mem_filter.mpr ⟨List.mem_range.mpr inside, kept⟩)
    rw [scanned]
    exact List.ne_nil_of_mem (List.mem_flatMap_of_mem there shown)
  · intro chunk there row inside
    obtain ⟨value, cell⟩ := Option.isSome_iff_exists.mp (readable chunk there row inside)
    refine ⟨entryOf c value, ⟨?_, (keepsRow_entry idempotent value cell).mpr rfl⟩, ?_⟩
    · exact (met _).mpr ⟨chunk, there, row, inside, value, cell, rfl⟩
    · rintro entry ⟨member, kept⟩
      obtain ⟨_, _, _, _, other, _, rfl⟩ := (met entry).mp member
      exact (keepsRow_entry idempotent other cell).mp kept

/-- A finished result of one column: a text twice, a NULL and the empty text. -/
def fourCells : World :=
  { start with
    phase := .complete
    columnCount := 1
    chunks := [⟨0, 4, ⟨4, [[some (.text "a"), some .null, some (.text "a"), some (.text "")]]⟩⟩]
    rows := 4 }

/-- Three values, with room for three. -/
theorem picker_partitions_three :
    distinctValues plainText (fun _ => true) fourCells 0 3 = .ok ⟨[none, some "", some "a"], false⟩ ∧
      ∀ chunk ∈ fourCells.chunks, ∀ row < chunk.rows, ∃! entry, entry ∈ [none, some "", some "a"] ∧
        keepsRow plainText (onlyValue 0 entry) chunk.chunk row = true := by
  have listed : distinctValues plainText (fun _ => true) fourCells 0 3 = .ok ⟨[none, some "", some "a"], false⟩ := by
    rfl
  have readable : ∀ chunk ∈ fourCells.chunks, ∀ row < chunk.rows, (valueOf chunk.chunk 0 row).isSome = true := by
    decide
  exact ⟨listed, (picker_partitions (fun _ => rfl) readable listed).2.2⟩

end QueryHive.Store.Picker
