import QueryHive.Store.Logical
import QueryHive.Store.Render

/-! A column that the schema has as text. `utf8_array` takes a cell's text for the sign that there
is a cell at all: an empty text becomes NULL, so exactly the values that are rendered as nothing
are lost to SQL. -/
namespace QueryHive.Store.Logical
open QueryHive.Columnar QueryHive.Library.Result

section
variable (render : Value → String)

/-- What a text column shows of a value: NULL for NULL alone, else its text. -/
def Shows (cell : Option String) (value : Value) : Prop :=
  (cell = none ↔ value = .null) ∧ (value ≠ .null → cell = some (render value))

/-- The cell `utf8_array` writes for a value. -/
def textCell (value : Value) : Option String :=
  let text := match value with
    | .null => ""
    | value => render value
  if text = "" then none else some text

theorem textCell_shows_iff (value : Value) :
    Shows render (textCell render value) value ↔ value = .null ∨ render value ≠ "" := by
  by_cases null : value = .null
  · subst null
    simp [Shows, textCell]
  · have cell : textCell render value = if render value = "" then none else some (render value) := by
      cases value <;> first | rfl | exact absurd rfl null
    by_cases empty : render value = ""
    · simp [Shows, cell, empty, null]
    · simp [Shows, cell, empty, null]

theorem utf8Array_cells (read : readColumn array encoding array.length = .ok values) :
    utf8Array render array encoding = .ok (.utf8 (values.map (textCell render))) := by
  have length := readColumn_length read
  have each : ∀ row ∈ List.range array.length, (do
      let text ← textOf render array encoding row
      .ok (if text = "" then none else some text)) =
        (.ok (textCell render (values[row]?.getD .null)) : Except StoreError _) := by
    intro row inside
    obtain ⟨found, reads, there⟩ := readColumn_row read (List.mem_range.mp inside)
    rw [textOf, reads, there, Option.getD_some]
    cases found <;> rfl
  rw [utf8Array, mapM_map each]
  refine congrArg (Except.ok ∘ ArrowArray.utf8) (List.ext_getElem (by simp [length]) fun row small inside => ?_)
  rw [List.length_map] at inside
  simp [inside]

end

theorem stored_column {c : Nat} (sealed : sealColumns columns = .ok chunk) (stored : sealStoreChunk chunk = .ok deltas)
    (inBatch : chunk.batch[c]? = some array) (inEncodings : chunk.encodings[c]? = some encoding) :
    ∃ values, readColumn array encoding array.length = .ok values := by
  have pair : (chunk.batch.zip chunk.encodings)[c]? = some (array, encoding) :=
    List.getElem?_zip_eq_some.mpr ⟨inBatch, inEncodings⟩
  obtain ⟨delta, taken, -⟩ := mapM_get stored pair
  rw [← sealed_rows sealed inBatch] at taken
  obtain ⟨values, read, -⟩ := columnStats_read taken
  exact ⟨values, read⟩

/-- A text column shows the stored value in every row that holds NULL or a value with text, and
in no other row. -/
theorem text_column_shows_iff {writeFloat : UInt64 → String} (floats : ∀ bits, writeFloat bits ≠ "") {c : Nat}
    (sealed : sealColumns columns = .ok chunk) (stored : sealStoreChunk chunk = .ok deltas)
    (inBatch : chunk.batch[c]? = some array) (inEncodings : chunk.encodings[c]? = some encoding)
    (inside : row < array.length) (rows : Nat) :
    ∃ cells cell value, buildLogicalArray (writeText writeFloat) array encoding .utf8 rows = .ok (.utf8 cells) ∧
      cells[row]? = some cell ∧ valueAt array encoding row = .ok value ∧
        (Shows (writeText writeFloat) cell value ↔ value = .null ∨ noText value = false) := by
  obtain ⟨values, read⟩ := stored_column sealed stored inBatch inEncodings
  obtain ⟨value, reads, there⟩ := readColumn_row read inside
  refine ⟨_, _, value, utf8Array_cells _ read, by rw [List.getElem?_map, there]; rfl, reads, ?_⟩
  rw [textCell_shows_iff, ne_eq, writeText_empty_iff floats, Bool.not_eq_true]

theorem word_sealed :
    sealColumns [[.text "word", .null]] = .ok ⟨[.utf8 [some "word", none]], [.text]⟩ := rfl

/-- A row of text, in a column beside its NULL. -/
theorem text_column_shows_iff_word :
    ∃ cells cell value, buildLogicalArray (writeText fun _ => "nan") (.utf8 [some "word", none]) .text .utf8 2 =
      .ok (.utf8 cells) ∧
      cells[0]? = some cell ∧ valueAt (.utf8 [some "word", none]) .text 0 = .ok value ∧
        (Shows (writeText fun _ => "nan") cell value ↔ value = .null ∨ noText value = false) :=
  text_column_shows_iff (fun _ => by decide) word_sealed rfl (c := 0) rfl rfl (by decide) 2

/-- An empty text is stored as it is, and becomes NULL in the text column. -/
theorem empty_text_becomes_null :
    ∃ chunk array, sealColumns [[.text ""]] = .ok chunk ∧ (sealStoreChunk chunk).isOk = true ∧
      chunk.batch[0]? = some array ∧
      chunk.encodings[0]? = some .text ∧ valueAt array .text 0 = .ok (.text "") ∧
        buildLogicalArray (writeText fun _ => "nan") array .text .utf8 1 = .ok (.utf8 [none]) ∧
          ¬ Shows (writeText fun _ => "nan") none (.text "") := by
  refine ⟨⟨[.utf8 [some ""]], [.text]⟩, _, rfl, rfl, rfl, rfl, rfl, rfl, ?_⟩
  intro shows
  cases shows.1.mp rfl

end QueryHive.Store.Logical
