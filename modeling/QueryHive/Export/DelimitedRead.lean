import QueryHive.Export.Delimited

/-! What a reader makes of a delimited file that was written here. A field left bare is cut where it
holds a carriage return, so a row is read as one record or as several, and a row that shows nothing is
passed over. The rows come back exactly when none of that happens, and the file does not start with a
name that a reader takes for a byte order mark. -/
namespace QueryHive.Export.Delimited
open QueryHive.Library QueryHive.Store Csv Text

/-- A field as it is written: in quotes or bare. -/
structure Cell where
  quoted : Bool
  text : List Char
  deriving DecidableEq, Repr

def Cell.spell (cell : Cell) : List Char := if cell.quoted then quote cell.text else cell.text

section
variable (delimiter : Delimiter) (needs : List Char → Bool)

def rowText (cells : List Cell) : List Char := [delimiter.char].intercalate (cells.map Cell.spell)

/-- A cell that is read as it was: it is in quotes for a reason, or it holds nothing that ends it. -/
def Fine (cell : Cell) : Prop :=
  (cell.quoted = true ∧ needs cell.text = true) ∨ (cell.quoted = false ∧ Plain delimiter cell.text)

/-- A cell that is written: bare, it may hold a carriage return. -/
def Loose (cell : Cell) : Prop :=
  (cell.quoted = true ∧ needs cell.text = true) ∨
    (cell.quoted = false ∧ ∀ c ∈ cell.text, c ≠ delimiter.char ∧ c ≠ '"' ∧ c ≠ '\n')

/-- How a row falls into records: it is cut at each carriage return in a bare cell. -/
inductive Breaks : List Cell → List (List Cell) → Prop
  | nothing : Breaks [] []
  | whole (filled : row ≠ []) (fine : ∀ cell ∈ row, Fine delimiter needs cell) : Breaks row [row]
  | cut (fine : ∀ cell ∈ before, Fine delimiter needs cell) (clear : Plain delimiter first)
      (later : Breaks (⟨false, rest⟩ :: cells) records) :
      Breaks (before ++ ⟨false, first ++ '\r' :: rest⟩ :: cells) ((before ++ [⟨false, first⟩]) :: records)

end

variable {delimiter : Delimiter} {needs : List Char → Bool}

theorem rowText_cons (delimiter : Delimiter) (cell : Cell) (filled : cells ≠ []) :
    rowText delimiter (cell :: cells) = cell.spell ++ delimiter.char :: rowText delimiter cells := by
  obtain ⟨next, cells, rfl⟩ := List.exists_cons_of_ne_nil filled
  simp [rowText, List.intercalate_cons_cons]

theorem rowText_cut (before : List Cell) (first rest : List Char) (cells : List Cell) :
    rowText delimiter (before ++ ⟨false, first ++ '\r' :: rest⟩ :: cells) =
      rowText delimiter (before ++ [⟨false, first⟩]) ++ '\r' :: rowText delimiter (⟨false, rest⟩ :: cells) := by
  induction before with
  | nil =>
    cases cells with
    | nil => simp [rowText, Cell.spell]
    | cons cell cells =>
      have filled : cell :: cells ≠ [] := List.cons_ne_nil _ _
      rw [List.nil_append, List.nil_append, rowText_cons delimiter _ filled, rowText_cons delimiter _ filled]
      simp [rowText, Cell.spell]
  | cons cell before ih =>
    have left : before ++ ⟨false, first ++ '\r' :: rest⟩ :: cells ≠ [] := by simp
    have right : before ++ [⟨false, first⟩] ≠ [] := by simp
    rw [List.cons_append, List.cons_append, rowText_cons delimiter cell left, rowText_cons delimiter cell right, ih,
      List.append_assoc,
      List.cons_append]

theorem spells_row (filled : row ≠ []) (fine : ∀ cell ∈ row, Fine delimiter needs cell) :
    SpellsRecord delimiter (row.map Cell.text) (rowText delimiter row) := by
  have own : ∀ cell, Fine delimiter needs cell → SpellsField delimiter cell.text cell.spell := by
    intro cell good
    rcases good with ⟨quoted, -⟩ | ⟨bare, clear⟩
    · rw [Cell.spell, if_pos quoted]
      exact .quoted _
    · rw [Cell.spell, if_neg (by simp [bare])]
      exact .plain clear
  induction row with
  | nil => exact absurd rfl filled
  | cons cell cells ih =>
    cases cells with
    | nil =>
      have text : rowText delimiter [cell] = cell.spell := by simp [rowText]
      rw [text]
      exact .last (own cell (fine cell List.mem_cons_self))
    | cons next cells =>
      rw [rowText_cons delimiter _ (List.cons_ne_nil _ _)]
      exact .more (own cell (fine cell List.mem_cons_self))
        (ih (List.cons_ne_nil _ _) fun other inside => fine other (List.mem_cons_of_mem _ inside))

def Shows (cells : List Cell) : Bool := cells ≠ [] && cells ≠ [⟨false, []⟩]

theorem rowText_nil_iff (row : List Cell) : rowText delimiter row = [] ↔ Shows row = false := by
  cases row with
  | nil => simp [rowText, Shows]
  | cons cell cells =>
    cases cells with
    | nil =>
      obtain ⟨quoted, text⟩ := cell
      cases quoted <;> simp [rowText, Shows, Cell.spell, quote]
    | cons next cells =>
      rw [rowText_cons delimiter _ (List.cons_ne_nil _ _)]
      simp [Shows]

theorem first_not_fine {row : List Cell} (broken : ¬∀ cell ∈ row, Fine delimiter needs cell) :
    ∃ before cell after, row = before ++ cell :: after ∧ (∀ other ∈ before, Fine delimiter needs other) ∧
      ¬Fine delimiter needs cell := by
  induction row with
  | nil => exact absurd (fun cell inside => absurd inside List.not_mem_nil) broken
  | cons cell row ih =>
    by_cases fine : Fine delimiter needs cell
    · have later : ¬∀ other ∈ row, Fine delimiter needs other := by
        intro all
        exact broken (List.forall_mem_cons.mpr ⟨fine, all⟩)
      obtain ⟨before, other, after, rfl, good, bad⟩ := ih later
      exact ⟨cell :: before, other, after, rfl, List.forall_mem_cons.mpr ⟨fine, good⟩, bad⟩
    · exact ⟨[], cell, row, rfl, fun _ none => absurd none List.not_mem_nil, fine⟩

/-- A cell that is written but not fine is bare and holds a carriage return. -/
theorem cut_of_loose (loose : Loose delimiter needs cell) (broken : ¬Fine delimiter needs cell) :
    ∃ first rest, cell = ⟨false, first ++ '\r' :: rest⟩ ∧ Plain delimiter first ∧
      ∀ c ∈ rest, c ≠ delimiter.char ∧ c ≠ '"' ∧ c ≠ '\n' := by
  obtain ⟨quoted, text⟩ := cell
  rcases loose with inQuotes | ⟨bare, clear⟩
  · exact absurd (.inl inQuotes) broken
  dsimp only at bare clear
  subst bare
  have holds : '\r' ∈ text := by
    by_contra none
    refine broken (.inr ⟨rfl, ?_⟩)
    intro c inside
    obtain ⟨notDelimiter, notQuote, notNewline⟩ := clear c inside
    have notReturn : c ≠ '\r' := fun same => none (same ▸ inside)
    exact ⟨notDelimiter, notQuote, by simp [isBreak, notReturn, notNewline]⟩
  obtain ⟨first, rest, rfl, none⟩ := List.eq_append_cons_of_mem holds
  refine ⟨first, rest, rfl, ?_, ?_⟩
  · intro c inside
    obtain ⟨notDelimiter, notQuote, notNewline⟩ := clear c (List.mem_append_left _ inside)
    have notReturn : c ≠ '\r' := fun same => none (same ▸ inside)
    exact ⟨notDelimiter, notQuote, by simp [isBreak, notReturn, notNewline]⟩
  · exact fun c inside => clear c (List.mem_append_right _ (List.mem_cons_of_mem _ inside))

def returns (row : List Cell) : Nat := (row.map fun cell => cell.text.count '\r').sum

theorem exists_breaks (row : List Cell) (loose : ∀ cell ∈ row, Loose delimiter needs cell) :
    ∃ records, Breaks delimiter needs row records := by
  induction total : returns row using Nat.strong_induction_on generalizing row with
  | _ count ih =>
    by_cases fine : ∀ cell ∈ row, Fine delimiter needs cell
    · by_cases empty : row = []
      · subst empty
        exact ⟨[], .nothing⟩
      · exact ⟨[row], .whole empty fine⟩
    · obtain ⟨before, cell, after, rfl, good, bad⟩ := first_not_fine fine
      obtain ⟨first, rest, rfl, clear, open_⟩ :=
        cut_of_loose (loose cell (List.mem_append_right _ List.mem_cons_self)) bad
      have fewer : returns (⟨false, rest⟩ :: after) < count := by
        rw [← total]
        simp only [returns, List.map_append, List.map_cons, List.sum_append, List.sum_cons, List.count_append,
          List.count_cons_self]
        omega
      have later : ∀ other ∈ (⟨false, rest⟩ : Cell) :: after, Loose delimiter needs other := by
        intro other inside
        rcases List.mem_cons.mp inside with rfl | inside
        · exact .inr ⟨rfl, open_⟩
        · exact loose other (List.mem_append_right _ (List.mem_cons_of_mem _ inside))
      obtain ⟨records, breaks⟩ := ih _ fewer _ later rfl
      exact ⟨_, .cut good clear breaks⟩

/-- A line terminator that a reader of delimited text takes for one. -/
def IsTerminator (stop : List Char) : Prop := stop = ['\n'] ∨ stop = ['\r', '\n']

theorem IsTerminator.ends (terminator : IsTerminator stop) (rest : List Char) : EndsRecord stop rest := by
  rcases terminator with rfl | rfl
  · exact .inr (.inl rfl)
  · exact .inr (.inr (.inl rfl))

theorem records_empty_line (reader : CsvReader delimiter) (terminator : IsTerminator stop) (more : List Char) :
    reader.records (stop ++ more) = reader.records more := by
  rcases terminator with rfl | rfl
  · exact reader.records_blank rfl more
  · exact (reader.records_blank rfl ('\n' :: more)).trans (reader.records_blank rfl more)

theorem records_breaks (reader : CsvReader delimiter) (breaks : Breaks delimiter needs row records)
    (terminator : IsTerminator stop) (more : List Char) :
    reader.records (rowText delimiter row ++ (stop ++ more)) =
      (records.filter Shows).map (·.map Cell.text) ++ reader.records more := by
  induction breaks with
  | nothing => exact records_empty_line reader terminator more
  | @whole row filled fine =>
    by_cases shows_ : Shows row = true
    · have some_ : rowText delimiter row ≠ [] := fun none => by
        rw [(rowText_nil_iff row).mp none] at shows_
        cases shows_
      rw [reader.records_record (spells_row filled fine) some_ (terminator.ends more), List.filter_cons_of_pos shows_]
      rfl
    · rw [(rowText_nil_iff row).mpr (Bool.eq_false_iff.mpr shows_), List.filter_cons_of_neg shows_, List.nil_append,
        records_empty_line reader terminator more]
      rfl
  | @cut before first rest cells records fine clear later ih =>
    have piece : ∀ cell ∈ before ++ [⟨false, first⟩], Fine delimiter needs cell := by
      intro cell inside
      rcases List.mem_append.mp inside with inside | inside
      · exact fine cell inside
      · rw [List.mem_singleton.mp inside]
        exact .inr ⟨rfl, clear⟩
    have filled : before ++ [(⟨false, first⟩ : Cell)] ≠ [] := by simp
    rw [rowText_cut, List.append_assoc, List.cons_append]
    generalize rowText delimiter (⟨false, rest⟩ :: cells) ++ (stop ++ more) = tail at ih
    by_cases shows_ : Shows (before ++ [⟨false, first⟩]) = true
    · have some_ : rowText delimiter (before ++ [⟨false, first⟩]) ≠ [] := fun none => by
        rw [(rowText_nil_iff _).mp none] at shows_
        cases shows_
      have read := reader.records_record (spells_row filled piece) some_ (.inl rfl : EndsRecord ['\r'] tail)
      rw [List.filter_cons_of_pos shows_, List.map_cons, List.cons_append, ← ih]
      exact read
    · rw [(rowText_nil_iff _).mpr (Bool.eq_false_iff.mpr shows_), List.filter_cons_of_neg shows_, List.nil_append,
        reader.records_blank rfl, ih]

variable {rows : List (List Cell)}

def rowsText (delimiter : Delimiter) (stop : List Char) (rows : List (List Cell)) : List Char :=
  rows.flatMap fun row => rowText delimiter row ++ stop

/-- A record that is read is one that shows something, of fine cells. -/
def Sound (delimiter : Delimiter) (needs : List Char → Bool) (cells : List Cell) : Prop :=
  Shows cells = true ∧ ∀ cell ∈ cells, Fine delimiter needs cell

/-- How many characters the fields of records hold. -/
def size (records : List (List (List Char))) : Nat := (records.map fun record => (record.map List.length).sum).sum

theorem fine_of_breaks (breaks : Breaks delimiter needs row records) :
    ∀ record ∈ records, ∀ cell ∈ record, Fine delimiter needs cell := by
  induction breaks with
  | nothing => exact fun _ none => absurd none List.not_mem_nil
  | whole filled fine =>
    intro record inside
    rw [List.mem_singleton.mp inside]
    exact fine
  | cut fine clear later ih =>
    intro record inside
    rcases List.mem_cons.mp inside with rfl | inside
    · intro cell place
      rcases List.mem_append.mp place with place | place
      · exact fine cell place
      · rw [List.mem_singleton.mp place]
        exact .inr ⟨rfl, clear⟩
    · exact ih record inside

theorem size_of_breaks (breaks : Breaks delimiter needs row records) :
    size (records.map (·.map Cell.text)) ≤ size [row.map Cell.text] := by
  induction breaks with
  | nothing => exact Nat.le_refl _
  | whole filled fine => exact Nat.le_refl _
  | cut fine clear later ih =>
    simp only [size, List.map_cons, List.map_append, List.map_nil, List.sum_append, List.sum_cons, List.sum_nil,
      List.length_append, List.length_cons] at ih ⊢
    omega

theorem size_filter (kept : List Cell → Bool) (records : List (List Cell)) :
    size ((records.filter kept).map (·.map Cell.text)) ≤ size (records.map (·.map Cell.text)) := by
  induction records with
  | nil => exact Nat.le_refl _
  | cons record records ih =>
    simp only [size] at ih
    by_cases stays : kept record = true
    · simp only [List.filter_cons_of_pos stays, size, List.map_cons, List.sum_cons]
      omega
    · simp only [List.filter_cons_of_neg stays, size, List.map_cons, List.sum_cons]
      omega

/-- What is read of a file: records of fine cells, that hold no more characters than its rows. -/
theorem records_rows (reader : CsvReader delimiter) (terminator : IsTerminator stop)
    (loose : ∀ row ∈ rows, ∀ cell ∈ row, Loose delimiter needs cell) :
    ∃ records : List (List Cell), reader.records (rowsText delimiter stop rows) = records.map (·.map Cell.text) ∧
      (∀ record ∈ records, Sound delimiter needs record) ∧
      size (records.map (·.map Cell.text)) ≤ size (rows.map (·.map Cell.text)) := by
  induction rows with
  | nil => exact ⟨[], reader.records_nil, fun _ none => absurd none List.not_mem_nil, Nat.le_refl _⟩
  | cons row rows ih =>
    obtain ⟨later, read, sound, small⟩ := ih fun other inside => loose other (List.mem_cons_of_mem _ inside)
    obtain ⟨own, breaks⟩ := exists_breaks row (loose row List.mem_cons_self)
    have first := records_breaks reader breaks terminator (rowsText delimiter stop rows)
    refine ⟨own.filter Shows ++ later, ?_, ?_, ?_⟩
    · rw [rowsText, List.flatMap_cons, List.append_assoc, List.map_append, ← read]
      exact first
    · intro record inside
      rcases List.mem_append.mp inside with inside | inside
      · obtain ⟨place, shows_⟩ := List.mem_filter.mp inside
        exact ⟨shows_, fine_of_breaks breaks record place⟩
      · exact sound record inside
    · have least := size_of_breaks breaks
      have fewer : size ((own.filter Shows).map (·.map Cell.text)) ≤ size (own.map (·.map Cell.text)) :=
        size_filter Shows own
      simp only [size, List.map_append, List.map_cons, List.map_nil, List.sum_append, List.sum_cons, List.sum_nil] at *
      omega

theorem records_sound (reader : CsvReader delimiter) (terminator : IsTerminator stop)
    (sound : ∀ row ∈ rows, Sound delimiter needs row) :
    reader.records (rowsText delimiter stop rows) = rows.map (·.map Cell.text) := by
  induction rows with
  | nil => exact reader.records_nil
  | cons row rows ih =>
    obtain ⟨shows_, fine⟩ := sound row List.mem_cons_self
    have filled : row ≠ [] := by
      rintro rfl
      cases shows_
    have first := records_breaks reader (Breaks.whole filled fine) terminator (rowsText delimiter stop rows)
    rw [ih fun other inside => sound other (List.mem_cons_of_mem _ inside), List.filter_cons_of_pos shows_] at first
    rw [rowsText, List.flatMap_cons, List.append_assoc]
    exact first

def quotes (delimiter : Delimiter) (stop field : List Char) : Bool :=
  field.contains delimiter.char || field.contains '"' || field.any stop.contains

def cellsOf (delimiter : Delimiter) (stop : List Char) (fields : List String) : List Cell :=
  fields.map fun field => ⟨quotes delimiter stop field.toList, field.toList⟩

theorem text_cellsOf (delimiter : Delimiter) (stop : List Char) (fields : List String) :
    (cellsOf delimiter stop fields).map Cell.text = fields.map String.toList := by
  rw [cellsOf, List.map_map]
  rfl

theorem loose_cellsOf (delimiter : Delimiter) (terminator : IsTerminator stop) (fields : List String) :
    ∀ cell ∈ cellsOf delimiter stop fields, Loose delimiter (quotes delimiter stop) cell := by
  intro cell inside
  obtain ⟨field, -, rfl⟩ := List.mem_map.mp inside
  cases needed : quotes delimiter stop field.toList with
  | true => exact .inl ⟨rfl, needed⟩
  | false =>
    refine .inr ⟨rfl, ?_⟩
    simp only [quotes, Bool.or_eq_false_iff, List.any_eq_false] at needed
    obtain ⟨⟨noDelimiter, noQuote⟩, noStop⟩ := needed
    intro c place
    refine ⟨?_, ?_, ?_⟩
    · rintro rfl
      rw [List.contains_iff_mem.mpr place] at noDelimiter
      cases noDelimiter
    · rintro rfl
      rw [List.contains_iff_mem.mpr place] at noQuote
      cases noQuote
    · rintro rfl
      refine noStop '\n' place ?_
      rcases terminator with rfl | rfl <;> rfl

variable {writer : DelimitedWriter}

/-- A writer of a file in UTF-8 with the usual quote. -/
structure Writes (writer : DelimitedWriter) (delimiter : Delimiter) (stop : List Char) : Prop where
  codec : writer.codec = .utf8
  delimiter : writer.delimiter = delimiter.char
  quotechar : writer.quotechar = '"'
  lineterminator : writer.lineterminator.toList = stop

theorem encode_utf8 (text : String) : Codec.utf8.encode text = encodeUtf8 text.toList := Ascii.utf8_eq text

theorem renderFields_eq (writes : Writes writer delimiter stop) (fields : List String) :
    (writer.renderFields fields).toList = rowText delimiter (cellsOf delimiter stop fields) ++ stop := by
  have own : ∀ field : String, writer.renderField field =
      (Cell.mk (quotes delimiter stop field.toList) field.toList).spell := by
    intro field
    have same : writer.needsQuotes field = quotes delimiter stop field.toList := by
      rw [DelimitedWriter.needsQuotes, quotes, writes.delimiter, writes.quotechar, writes.lineterminator]
    rw [DelimitedWriter.renderField, same, writes.quotechar, Cell.spell, quote, doubled]
    have escaped : (fun c : Char => if c = '"' then ['"', c] else [c]) =
      fun c => if c = '"' then ['"', '"'] else [c] := by
      funext c
      split
      · next quoted => rw [quoted]
      · rfl
    rw [escaped]
  rw [DelimitedWriter.renderFields, String.toList_ofList, writes.lineterminator, writes.delimiter, rowText,
    cellsOf, List.map_map]
  have cells : fields.map writer.renderField =
      fields.map (Cell.spell ∘ fun field => ⟨quotes delimiter stop field.toList, field.toList⟩) :=
    List.map_congr_left fun field _ => own field
  rw [cells]

theorem Writes.writeFields (writes : Writes writer delimiter stop) (fields : List String) :
    Writes (writer.writeFields fields) delimiter stop :=
  ⟨writes.codec, writes.delimiter, writes.quotechar, writes.lineterminator⟩

theorem out_writeFields (writes : Writes writer delimiter stop) (fields : List String) :
    (writer.writeFields fields).out = writer.out ++
    encodeUtf8 (rowsText delimiter stop [cellsOf delimiter stop fields]) := by
  have shape : (writer.writeFields fields).out = writer.out ++ writer.codec.encode (writer.renderFields fields) := rfl
  rw [shape, writes.codec, encode_utf8, renderFields_eq writes, rowsText, List.flatMap_cons, List.flatMap_nil,
    List.append_nil]

theorem writeFields_nullText (writer : DelimitedWriter) (fields : List String) :
    (writer.writeFields fields).nullText = writer.nullText := rfl

theorem cellText_congr {other : DelimitedWriter} (same : other.nullText = writer.nullText) (floats : Buffer.FloatText) :
    other.cellText floats = writer.cellText floats := by
  funext value
  rw [DelimitedWriter.cellText, DelimitedWriter.cellText, same]

theorem out_writeRows (floats : Buffer.FloatText) (writes : Writes writer delimiter stop) (rows : List (List Value)) :
    (rows.foldl (DelimitedWriter.writeRow floats) writer).out =
      writer.out ++ encodeUtf8 (rowsText delimiter stop
        (rows.map fun row => cellsOf delimiter stop (row.map (writer.cellText floats)))) := by
  induction rows generalizing writer with
  | nil => simp [rowsText, encodeUtf8]
  | cons row rows ih =>
    have step : writer.writeRow floats row = writer.writeFields (row.map (writer.cellText floats)) := rfl
    rw [List.foldl_cons, step, ih (writes.writeFields _), out_writeFields writes,
      cellText_congr (writeFields_nullText writer _), List.append_assoc, ← encodeUtf8_append]
    simp only [rowsText, List.map_cons, List.flatMap_cons, List.flatMap_nil, List.append_nil]

def written (floats : Buffer.FloatText) (columns : List Dbf.ColumnMeta) (options : Options) (rows : List (List Value)) :
    List (List String) :=
  columns.map Dbf.ColumnMeta.name ::
    rows.map fun row => row.map fun value => (Buffer.toText floats value).getD options.nullText

/-- The settings of a file in UTF-8 with a header. -/
structure Settings (alphanumeric : Char → Bool) (options : Options) (delimiter : Delimiter) : Prop where
  utf8 : Codec.resolve alphanumeric "ENCODING" options.encoding = .ok .utf8
  delimiter : options.delimiter = some delimiter.char
  quotechar : options.quotechar = '"'
  header : options.header = true
  lineterminator : options.lineterminator = "\n" ∨ options.lineterminator = "\r\n"

theorem Settings.terminator (settings : Settings alphanumeric options delimiter) :
    IsTerminator options.lineterminator.toList := by
  rcases settings.lineterminator with same | same
  · exact .inl (by rw [same]; rfl)
  · exact .inr (by rw [same]; rfl)

def started (delimiter : Delimiter) (options : Options) (out : List UInt8) : DelimitedWriter :=
  ⟨out, .utf8, delimiter.char, '"', options.lineterminator, options.nullText⟩

theorem export_eq (settings : Settings alphanumeric options delimiter) (floats : Buffer.FloatText)
    (columns : List Dbf.ColumnMeta) (csv : Bool) (rows : List (List Value)) :
    export_ alphanumeric floats columns options csv rows =
      .ok (encodeUtf8 ((if options.bom then [byteOrderMark] else []) ++
        rowsText delimiter options.lineterminator.toList
          ((written floats columns options rows).map (cellsOf delimiter options.lineterminator.toList)))) := by
  have made : DelimitedWriter.new alphanumeric columns options csv =
      .ok ((started delimiter options (if options.bom then encodeUtf8 [byteOrderMark] else [])).writeFields
        (columns.map Dbf.ColumnMeta.name)) := by
    rw [DelimitedWriter.new, settings.utf8, started]
    simp only [bind, Except.bind, pure, Except.pure, settings.header, settings.delimiter, settings.quotechar, if_true,
      Option.getD_some, Codec.isUtf8, decide_true, Bool.and_true]
  have writes : ∀ out, Writes (started delimiter options out) delimiter options.lineterminator.toList :=
    fun _ => ⟨rfl, rfl, rfl, rfl⟩
  rw [export_, made]
  simp only [bind, Except.bind, pure, Except.pure, Except.ok.injEq]
  rw [out_writeRows floats ((writes _).writeFields _), out_writeFields (writes _)]
  have mark : (if options.bom then encodeUtf8 [byteOrderMark] else []) =
      encodeUtf8 (if options.bom then [byteOrderMark] else []) := by cases options.bom <;> rfl
  have split : rowsText delimiter options.lineterminator.toList
        ((written floats columns options rows).map (cellsOf delimiter options.lineterminator.toList)) =
      rowsText delimiter options.lineterminator.toList
          [cellsOf delimiter options.lineterminator.toList (columns.map Dbf.ColumnMeta.name)] ++
        rowsText delimiter options.lineterminator.toList (rows.map fun row =>
          cellsOf delimiter options.lineterminator.toList
            (row.map fun value => (Buffer.toText floats value).getD options.nullText)) := by
    simp only [rowsText, written, List.map_cons, List.map_map, List.flatMap_cons, List.flatMap_nil, List.append_nil,
      Function.comp_def]
  rw [mark, split, encodeUtf8_append, encodeUtf8_append, List.append_assoc]
  rfl

/-- A field that comes back: it is in quotes if it holds a carriage return. -/
def ReturnsQuoted (delimiter : Delimiter) (stop : List Char) (field : String) : Prop :=
  '\r' ∈ field.toList → quotes delimiter stop field.toList = true

/-- A row that comes back: it shows something, and each of its fields comes back. -/
def RowReturns (delimiter : Delimiter) (stop : List Char) (row : List String) : Prop :=
  row ≠ [] ∧ row ≠ [""] ∧ ∀ field ∈ row, ReturnsQuoted delimiter stop field

instance : Decidable (ReturnsQuoted delimiter stop field) := inferInstanceAs (Decidable (_ → _))

instance : Decidable (RowReturns delimiter stop row) := inferInstanceAs (Decidable (_ ∧ _ ∧ _))

def StartsMarked (delimiter : Delimiter) (options : Options) (columns : List Dbf.ColumnMeta) : Prop :=
  options.bom = false ∧ ∃ first, (columns.head?.map Dbf.ColumnMeta.name) = some first ∧
    first.toList.head? = some byteOrderMark ∧ quotes delimiter options.lineterminator.toList first.toList = false

theorem quoted_of_fine (terminator : IsTerminator stop) (fine : Fine delimiter (quotes delimiter stop) cell) :
    cell.quoted = quotes delimiter stop cell.text := by
  rcases fine with ⟨quoted, needed⟩ | ⟨bare, clear⟩
  · rw [quoted, needed]
  · rw [bare]
    symm
    simp only [quotes, Bool.or_eq_false_iff, List.any_eq_false]
    refine ⟨⟨?_, ?_⟩, ?_⟩
    · by_contra holds
      rw [Bool.not_eq_false, List.contains_iff_mem] at holds
      exact (clear _ holds).1 rfl
    · by_contra holds
      rw [Bool.not_eq_false, List.contains_iff_mem] at holds
      exact (clear _ holds).2.1 rfl
    · intro c inside stops
      have open_ := (clear c inside).2.2
      have breaks : isBreak c = true := by
        rcases terminator with rfl | rfl
        · simp only [List.contains_iff_mem, List.mem_singleton] at stops
          simp [isBreak, stops]
        · simp only [List.contains_iff_mem, List.mem_cons, List.not_mem_nil, or_false] at stops
          simpa [isBreak] using stops
      rw [breaks] at open_
      cases open_

theorem rowReturns_iff (terminator : IsTerminator stop) (row : List String) :
    RowReturns delimiter stop row ↔ Sound delimiter (quotes delimiter stop) (cellsOf delimiter stop row) := by
  have bare : quotes delimiter stop [] = false := rfl
  have shown : Shows (cellsOf delimiter stop row) = true ↔ row ≠ [] ∧ row ≠ [""] := by
    cases row with
    | nil => simp [Shows, cellsOf]
    | cons field row =>
      cases row with
      | nil =>
        by_cases empty : field = ""
        · subst empty
          simp [Shows, cellsOf, bare]
        · have some_ : field.toList ≠ [] := fun none => empty (String.toList_inj.mp none)
          simp [Shows, cellsOf, empty, some_]
      | cons next row => simp [Shows, cellsOf]
  have fine : (∀ cell ∈ cellsOf delimiter stop row, Fine delimiter (quotes delimiter stop) cell) ↔
      ∀ field ∈ row, ReturnsQuoted delimiter stop field := by
    have own : ∀ field : String, Fine delimiter (quotes delimiter stop)
        ⟨quotes delimiter stop field.toList, field.toList⟩ ↔ ReturnsQuoted delimiter stop field := by
      intro field
      constructor
      · rintro (⟨quoted, -⟩ | ⟨-, clear⟩) holds
        · exact quoted
        · exact absurd (clear _ holds).2.2 (by decide)
      · intro returns
        by_contra broken
        have loose := loose_cellsOf delimiter terminator [field] _ (List.mem_singleton_self _)
        obtain ⟨first, rest, same, -, -⟩ := cut_of_loose loose broken
        obtain ⟨unquoted, text⟩ := Cell.mk.inj same
        have holds : '\r' ∈ field.toList := by simp [text]
        rw [returns holds] at unquoted
        cases unquoted
    simp only [cellsOf, List.forall_mem_map, own]
  rw [Sound, shown, fine, RowReturns, and_assoc]

theorem records_marked (reader : CsvReader delimiter) (terminator : IsTerminator stop) {first : String}
    (names : List String)
    (marked : first.toList = byteOrderMark :: tail) (bare : quotes delimiter stop first.toList = false)
    (rest : List (List String)) :
    ∃ text, rowsText delimiter stop (((first :: names) :: rest).map (cellsOf delimiter stop)) = byteOrderMark :: text ∧
      reader.records text ≠ ((first :: names) :: rest).map (·.map String.toList) := by
  have untailed : quotes delimiter stop tail = false := by
    rw [marked] at bare
    simp only [quotes, List.contains_cons, List.any_cons, Bool.or_eq_false_iff] at bare ⊢
    exact ⟨⟨bare.1.1.2, bare.1.2.2⟩, bare.2.2⟩
  have cells : ∀ row ∈ cellsOf delimiter stop (String.ofList tail :: names) :: rest.map (cellsOf delimiter stop),
      ∀ cell ∈ row, Loose delimiter (quotes delimiter stop) cell := by
    intro row inside
    rcases List.mem_cons.mp inside with rfl | inside
    · exact loose_cellsOf delimiter terminator _
    · obtain ⟨fields, -, rfl⟩ := List.mem_map.mp inside
      exact loose_cellsOf delimiter terminator fields
  obtain ⟨records, read, -, small⟩ := records_rows reader terminator cells
  refine ⟨rowsText delimiter stop
    (cellsOf delimiter stop (String.ofList tail :: names) :: rest.map (cellsOf delimiter stop)), ?_, ?_⟩
  · have head : ∀ more, rowText delimiter (⟨false, byteOrderMark :: tail⟩ :: more) =
        byteOrderMark :: rowText delimiter (⟨false, tail⟩ :: more) := by
      intro more
      cases more with
      | nil => simp [rowText, Cell.spell]
      | cons next more =>
        have filled : next :: more ≠ [] := List.cons_ne_nil _ _
        rw [rowText_cons delimiter _ filled, rowText_cons delimiter _ filled]
        rfl
    rw [marked] at bare
    simp only [rowsText, List.map_cons, List.flatMap_cons, cellsOf, marked, bare, String.toList_ofList, untailed, head,
      List.cons_append]
  · intro same
    rw [← read, same] at small
    simp only [List.map_cons, text_cellsOf, size, List.sum_cons, marked, String.toList_ofList,
      List.length_cons, List.map_map,
      Function.comp_def] at small
    omega

theorem head_rowsText (terminator : IsTerminator stop) {names : List String} {rest : List (List String)}
    (marked : (rowsText delimiter stop ((names :: rest).map (cellsOf delimiter stop))).head? = some byteOrderMark) :
    ∃ first more, names = first :: more ∧ first.toList.head? = some byteOrderMark ∧
      quotes delimiter stop first.toList = false := by
  have ending : ∀ more : List Char, (stop ++ more).head? ≠ some byteOrderMark := by
    intro more
    have newline : ('\n' : Char) ≠ byteOrderMark := by decide
    have return_ : ('\r' : Char) ≠ byteOrderMark := by decide
    rcases terminator with rfl | rfl
    · simpa using newline
    · simpa using return_
  have separator : delimiter.char ≠ byteOrderMark := by
    intro same
    have ascii := delimiter.ascii
    rw [same] at ascii
    exact absurd ascii (by decide)
  rw [rowsText, List.map_cons, List.flatMap_cons, List.append_assoc] at marked
  have tailOpen := ending ((rest.map (cellsOf delimiter stop)).flatMap fun row => rowText delimiter row ++ stop)
  generalize stop ++ ((rest.map (cellsOf delimiter stop)).flatMap fun row => rowText delimiter row ++ stop) = tail
    at marked tailOpen
  cases names with
  | nil => exact absurd marked tailOpen
  | cons first more =>
    refine ⟨first, more, rfl, ?_⟩
    have shape : ∃ behind, rowText delimiter (cellsOf delimiter stop (first :: more)) ++ tail =
        (Cell.mk (quotes delimiter stop first.toList) first.toList).spell ++ behind ∧
          behind.head? ≠ some byteOrderMark := by
      cases more with
      | nil =>
        have alone : rowText delimiter (cellsOf delimiter stop [first]) =
            (Cell.mk (quotes delimiter stop first.toList) first.toList).spell := by simp [rowText, cellsOf]
        exact ⟨tail, by rw [alone], tailOpen⟩
      | cons next more =>
        have filled : cellsOf delimiter stop (next :: more) ≠ [] := List.cons_ne_nil _ _
        have split := rowText_cons delimiter (Cell.mk (quotes delimiter stop first.toList) first.toList) filled
        refine ⟨delimiter.char :: (rowText delimiter (cellsOf delimiter stop (next :: more)) ++ tail), ?_, ?_⟩
        · rw [cellsOf, List.map_cons, ← cellsOf, split, List.append_assoc, List.cons_append]
        · simpa using separator
    obtain ⟨behind, split, open_⟩ := shape
    rw [split] at marked
    cases quoted : quotes delimiter stop first.toList with
    | true =>
      rw [quoted] at marked
      cases marked
    | false =>
      rw [quoted] at marked
      cases text : first.toList with
      | nil =>
        rw [text] at marked
        exact absurd marked open_
      | cons c tail =>
        rw [text] at marked
        exact ⟨marked, rfl⟩

theorem rows_eq (calls : Nat) (source : CsvSource) : source.rows calls = source.records.take calls := by
  induction calls generalizing source with
  | zero => rfl
  | succ calls ih =>
    obtain ⟨first, records⟩ := source
    cases records with
    | nil => rfl
    | cons row rest =>
      rw [CsvSource.rows, CsvSource.nextRow]
      simp only [ih, List.take_succ_cons]

theorem records_iff (reader : CsvReader delimiter) (terminator : IsTerminator stop) (rows : List (List String)) :
    reader.records (rowsText delimiter stop (rows.map (cellsOf delimiter stop))) = rows.map (·.map String.toList) ↔
      ∀ row ∈ rows, RowReturns delimiter stop row := by
  have shape : ∀ rows : List (List String), (rows.map (cellsOf delimiter stop)).map (·.map Cell.text) =
      rows.map (·.map String.toList) := by
    intro rows
    rw [List.map_map]
    exact List.map_congr_left fun row _ => text_cellsOf delimiter stop row
  constructor
  · intro same row inside
    have loose : ∀ row ∈ rows.map (cellsOf delimiter stop), ∀ cell ∈ row,
      Loose delimiter (quotes delimiter stop) cell := by
      intro cells place
      obtain ⟨fields, -, rfl⟩ := List.mem_map.mp place
      exact loose_cellsOf delimiter terminator fields
    obtain ⟨records, read, sound, -⟩ := records_rows reader terminator loose
    rw [read] at same
    have listed : row.map String.toList ∈ records.map (·.map Cell.text) := same ▸ List.mem_map_of_mem inside
    obtain ⟨record, place, texts⟩ := List.mem_map.mp listed
    obtain ⟨shows_, fine⟩ := sound record place
    have own : record = cellsOf delimiter stop row := by
      have again : record = (record.map Cell.text).map fun text => ⟨quotes delimiter stop text, text⟩ := by
        rw [List.map_map]
        conv => lhs; rw [← List.map_id record]
        exact List.map_congr_left fun cell member => by
          rw [Function.comp_apply, ← quoted_of_fine terminator (fine cell member)]
          rfl
      rw [again, texts, List.map_map]
      rfl
    exact (rowReturns_iff terminator row).mpr (own ▸ sound record place)
  · intro returns
    have sound : ∀ cells ∈ rows.map (cellsOf delimiter stop), Sound delimiter (quotes delimiter stop) cells := by
      intro cells place
      obtain ⟨row, inside, rfl⟩ := List.mem_map.mp place
      exact (rowReturns_iff terminator row).mp (returns row inside)
    rw [records_sound reader terminator sound, shape]

theorem file_iff (reader : CsvReader delimiter) (terminator : IsTerminator stop) (bom : Bool) (names : List String)
    (rest : List (List String)) :
    reader.file (encodeUtf8 ((if bom then [byteOrderMark] else []) ++
        rowsText delimiter stop ((names :: rest).map (cellsOf delimiter stop)))) =
      (names :: rest).map (·.map String.toList) ↔
    (∀ row ∈ names :: rest, RowReturns delimiter stop row) ∧
      ¬(bom = false ∧ ∃ first, names.head? = some first ∧ first.toList.head? = some byteOrderMark ∧
        quotes delimiter stop first.toList = false) := by
  cases bom with
  | true =>
    rw [if_pos rfl, List.singleton_append, reader.file_marked, records_iff reader terminator]
    simp
  | false =>
    rw [if_neg (by decide), List.nil_append]
    by_cases marked : ∃ first, names.head? = some first ∧ first.toList.head? = some byteOrderMark ∧
        quotes delimiter stop first.toList = false
    · obtain ⟨first, head, mark, bare⟩ := marked
      cases names with
      | nil => cases head
      | cons own more =>
        cases head
        cases text : first.toList with
        | nil =>
          rw [text] at mark
          cases mark
        | cons c tail =>
          rw [text] at mark
          cases mark
          obtain ⟨behind, start, other⟩ := records_marked reader terminator more text bare rest
          rw [start, reader.file_marked]
          constructor
          · exact fun same => absurd same other
          · rintro ⟨-, unmarked⟩
            exact absurd ⟨rfl, first, rfl, by rw [text]; rfl, bare⟩ unmarked
    · have unmarked : (rowsText delimiter stop ((names :: rest).map (cellsOf delimiter stop))).head? ≠
          some byteOrderMark := by
        intro starts
        obtain ⟨first, more, rfl, mark, bare⟩ := head_rowsText terminator starts
        exact marked ⟨first, rfl, mark, bare⟩
      rw [reader.file_unmarked _ unmarked, records_iff reader terminator]
      simp only [marked, and_false, not_false_eq_true, and_true]

theorem records_strings (records : List (List (List Char))) (rows : List (List String)) :
    records.map (·.map String.ofList) = rows ↔ records = rows.map (·.map String.toList) := by
  constructor
  · rintro rfl
    simp only [List.map_map, Function.comp_def, String.toList_ofList, List.map_id']
  · rintro rfl
    simp only [List.map_map, Function.comp_def, String.ofList_toList, List.map_id']

/-- A file comes back, the names of its columns as the header and its rows in order, exactly when each
row shows something, a field with a carriage return is in quotes, and no name is taken for a mark. -/
theorem csv_reads_back_iff {delimiter : Delimiter} (reader : CsvReader delimiter) (alphanumeric : Char → Bool)
    (floats : Buffer.FloatText) (columns : List Dbf.ColumnMeta) (options : Options) (csv : Bool)
    (rows : List (List Value)) (settings : Settings alphanumeric options delimiter) :
    ∃ file, export_ alphanumeric floats columns options csv rows = .ok file ∧
      ((∃ source, CsvSource.open_ reader true file = some source ∧
          source.header = some (columns.map Dbf.ColumnMeta.name) ∧
          ∀ calls, rows.length < calls → source.rows calls =
            rows.map fun row => row.map fun value => (Buffer.toText floats value).getD options.nullText) ↔
        (∀ row ∈ written floats columns options rows, RowReturns delimiter options.lineterminator.toList row) ∧
          ¬StartsMarked delimiter options columns) := by
  refine ⟨_, export_eq settings floats columns csv rows, ?_⟩
  generalize textEq : (if options.bom then [byteOrderMark] else []) ++
    rowsText delimiter options.lineterminator.toList
      ((written floats columns options rows).map (cellsOf delimiter options.lineterminator.toList)) = text
  have valid : fromUtf8 (encodeUtf8 text) = some (String.ofList text) := by
    rw [← Ascii.utf8_ofList, fromUtf8_utf8]
  have read := file_iff reader settings.terminator options.bom (columns.map Dbf.ColumnMeta.name)
    (rows.map fun row => row.map fun value => (Buffer.toText floats value).getD options.nullText)
  rw [← written, textEq, List.head?_map] at read
  rw [← records_strings] at read
  rw [StartsMarked, CsvSource.open_, valid]
  generalize (reader.file (encodeUtf8 text)).map (·.map String.ofList) = records at read ⊢
  constructor
  · rintro ⟨source, opened, header, all⟩
    refine read.mp ?_
    cases records with
    | nil =>
      cases opened
      cases header
    | cons first rest =>
      cases opened
      obtain ⟨same, -⟩ := Option.filter_eq_some_iff.mp header
      have enough := all (rows.length + rest.length + 1) (by omega)
      rw [rows_eq, List.take_of_length_le (by dsimp only; omega)] at enough
      rw [written, ← enough, Option.some.inj same]
  · intro returns
    have all := read.mpr returns
    have named : columns.map Dbf.ColumnMeta.name ≠ [] := (returns.1 _ List.mem_cons_self).1
    subst all
    refine ⟨_, rfl, ?_, ?_⟩
    · exact Option.filter_eq_some_iff.mpr ⟨rfl, by simpa using named⟩
    · intro calls enough
      rw [rows_eq, List.take_of_length_le]
      rw [List.length_map]
      exact Nat.le_of_lt enough

/-- The usual settings: a comma, CR LF, no mark. -/
def usual : Options := ⟨true, some ',', '"', "", "\r\n", false, "utf-8"⟩

def comma : Delimiter := ⟨',', by decide, by decide, by decide, by decide⟩

def noFloats : Buffer.FloatText := ⟨fun _ => "", fun _ => "", fun _ => 0⟩

/-- Two columns, and a row with a text and a NULL. -/
theorem two_columns_read_back :
    ∃ file, export_ Char.isAlphanum noFloats [⟨"a", "text"⟩, ⟨"b", "text"⟩] usual true
      [[.text "x,y", .null]] = .ok file ∧
      ∃ source, CsvSource.open_ (machine comma) true file = some source ∧ source.header = some ["a", "b"] ∧
        source.rows 2 = [["x,y", ""]] := by
  have settings : Settings Char.isAlphanum usual comma := ⟨by decide, rfl, rfl, rfl, .inr rfl⟩
  obtain ⟨file, exported, read⟩ := csv_reads_back_iff (machine comma) Char.isAlphanum noFloats
    [⟨"a", "text"⟩, ⟨"b", "text"⟩] usual true [[.text "x,y", .null]] settings
  have returns : ∀ row ∈ written noFloats [⟨"a", "text"⟩, ⟨"b", "text"⟩] usual [[.text "x,y", .null]],
      RowReturns comma usual.lineterminator.toList row := by decide
  have unmarked : ¬StartsMarked comma usual [⟨"a", "text"⟩, ⟨"b", "text"⟩] := by
    rintro ⟨-, first, head, mark, -⟩
    cases head
    exact absurd mark (by decide)
  obtain ⟨source, opened, header, rows⟩ := read.mpr ⟨returns, unmarked⟩
  exact ⟨file, exported, source, opened, header, rows 2 (by decide)⟩

/-- One column and an empty cell: the line of the row is blank, and the row is not read. -/
theorem empty_cell_lost :
    ∃ file, export_ Char.isAlphanum noFloats [⟨"a", "text"⟩] usual true [[.text ""]] = .ok file ∧
      ∃ source, CsvSource.open_ (machine comma) true file = some source ∧ source.rows 2 ≠ [[""]] := by
  refine ⟨_, rfl, _, rfl, ?_⟩
  decide

end QueryHive.Export.Delimited
