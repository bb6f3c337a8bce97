import QueryHive.Library.Ascii

/-! Delimited text. A record is fields between delimiters, each as it is or in quotes with its own
quotes doubled. A reader is known by what it does with a blank line and with a record spelled so; one
that goes a character at a time is such a reader. -/
namespace QueryHive.Library.Csv
open Text

/-- A delimiter: one ASCII character that is neither the quote nor the end of a line. -/
structure Delimiter where
  char : Char
  ascii : char.toNat < 128
  notQuote : char ≠ '"'
  notReturn : char ≠ '\r'
  notNewline : char ≠ '\n'

/-- What ends a record outside quotes. -/
def isBreak (c : Char) : Bool := c == '\r' || c == '\n'

/-- A field that needs no quotes. -/
def Plain (delimiter : Delimiter) (field : List Char) : Prop :=
  ∀ c ∈ field, c ≠ delimiter.char ∧ c ≠ '"' ∧ isBreak c = false

def doubled (field : List Char) : List Char := field.flatMap fun c => if c = '"' then ['"', '"'] else [c]

def quote (field : List Char) : List Char := '"' :: (doubled field ++ ['"'])

inductive SpellsField (delimiter : Delimiter) : List Char → List Char → Prop
  | plain (clear : Plain delimiter field) : SpellsField delimiter field field
  | quoted (field : List Char) : SpellsField delimiter field (quote field)

inductive SpellsRecord (delimiter : Delimiter) : List (List Char) → List Char → Prop
  | last (field : SpellsField delimiter value text) : SpellsRecord delimiter [value] text
  | more (field : SpellsField delimiter value text) (later : SpellsRecord delimiter values rest) :
    SpellsRecord delimiter (value :: values) (text ++ delimiter.char :: rest)

/-- What may stand between a record and the rest: a carriage return, a line feed, both, or the end. -/
def EndsRecord (stop rest : List Char) : Prop :=
  stop = ['\r'] ∨ stop = ['\n'] ∨ stop = ['\r', '\n'] ∨ (stop = [] ∧ rest = [])

def byteOrderMark : Char := '\uFEFF'

/-- A reader of delimited text, by its rules. -/
structure CsvReader (delimiter : Delimiter) where
  /-- The records from a record's start on. -/
  records : List Char → List (List (List Char))
  /-- The records of a file. -/
  file : List UInt8 → List (List (List Char))
  records_nil : records [] = []
  records_blank : ∀ {c}, isBreak c = true → ∀ rest, records (c :: rest) = records rest
  records_record : ∀ {fields text stop rest}, SpellsRecord delimiter fields text → text ≠ [] → EndsRecord stop rest →
    records (text ++ (stop ++ rest)) = fields :: records rest
  file_marked : ∀ text, file (encodeUtf8 (byteOrderMark :: text)) = records text
  file_unmarked : ∀ text, text.head? ≠ some byteOrderMark → file (encodeUtf8 text) = records text

inductive State where
  | startRecord | startField | inField | inQuotes | behindQuote
  deriving DecidableEq, Repr

/-- The records from a state on, with the field and the record as far as they are read. -/
def scan (delimiter : Char) : State → List Char → List (List Char) → List Char → List (List (List Char))
  | .startRecord, _, _, [] => []
  | _, field, record, [] => [record ++ [field]]
  | .inQuotes, field, record, c :: rest =>
    if c = '"' then scan delimiter .behindQuote field record rest
    else scan delimiter .inQuotes (field ++ [c]) record rest
  | state, field, record, c :: rest =>
    if c = '"' ∧ (state = .startRecord ∨ state = .startField) then scan delimiter .inQuotes field record rest
    else if c = '"' ∧ state = .behindQuote then scan delimiter .inQuotes (field ++ [c]) record rest
    else if c = delimiter then scan delimiter .startField [] (record ++ [field]) rest
    else if isBreak c then
      if state = .startRecord then scan delimiter .startRecord [] [] rest
      else (record ++ [field]) :: scan delimiter .startRecord [] [] rest
    else scan delimiter .inField (field ++ [c]) record rest

theorem scan_inQuotes (delimiter : Char) (field : List Char) (record : List (List Char)) (c : Char) (rest : List Char) :
    scan delimiter .inQuotes field record (c :: rest) =
      if c = '"' then scan delimiter .behindQuote field record rest
      else scan delimiter .inQuotes (field ++ [c]) record rest := rfl

theorem scan_outside {state : State} (outside : state ≠ .inQuotes) (delimiter : Char) (field : List Char)
    (record : List (List Char)) (c : Char) (rest : List Char) :
    scan delimiter state field record (c :: rest) =
      if c = '"' ∧ (state = .startRecord ∨ state = .startField) then scan delimiter .inQuotes field record rest
      else if c = '"' ∧ state = .behindQuote then scan delimiter .inQuotes (field ++ [c]) record rest
      else if c = delimiter then scan delimiter .startField [] (record ++ [field]) rest
      else if isBreak c then
        if state = .startRecord then scan delimiter .startRecord [] [] rest
        else (record ++ [field]) :: scan delimiter .startRecord [] [] rest
      else scan delimiter .inField (field ++ [c]) record rest := by
  cases state with
  | inQuotes => exact absurd rfl outside
  | startRecord => rfl
  | startField => rfl
  | inField => rfl
  | behindQuote => rfl

def State.Ended (state : State) : Prop := state = .startField ∨ state = .inField ∨ state = .behindQuote

theorem scan_end {state : State} (ended : state.Ended) (delimiter : Char) (field : List Char)
    (record : List (List Char)) :
    scan delimiter state field record [] = [record ++ [field]] := by
  rcases ended with rfl | rfl | rfl <;> rfl

theorem scan_break {state : State} (delimiter : Delimiter) (ended : state.Ended) (broken : isBreak c = true)
    (field : List Char) (record : List (List Char)) (rest : List Char) :
    scan delimiter.char state field record (c :: rest) =
      (record ++ [field]) :: scan delimiter.char .startRecord [] [] rest := by
  have notQuote : c ≠ '"' := by
    rintro rfl
    cases broken
  have notDelimiter : c ≠ delimiter.char := by
    rintro rfl
    simp [isBreak, delimiter.notReturn, delimiter.notNewline] at broken
  rcases ended with rfl | rfl | rfl <;> simp [scan_outside, notQuote, notDelimiter, broken]

theorem scan_delimiter {state : State} (delimiter : Delimiter) (ended : state.Ended) (field : List Char)
    (record : List (List Char)) (rest : List Char) :
    scan delimiter.char state field record (delimiter.char :: rest) =
      scan delimiter.char .startField [] (record ++ [field]) rest := by
  rcases ended with rfl | rfl | rfl <;> simp [scan_outside, delimiter.notQuote]

theorem scan_plain {state : State} {delimiter : Delimiter} (ended : state = .startField ∨ state = .inField)
    (clear : Plain delimiter text) (field : List Char) (record : List (List Char)) (rest : List Char) :
    ∃ after : State, after.Ended ∧
      scan delimiter.char state field record (text ++ rest) =
        scan delimiter.char after (field ++ text) record rest := by
  induction text generalizing state field with
  | nil =>
    refine ⟨state, ended.elim .inl (.inr ∘ .inl), ?_⟩
    rw [List.nil_append, List.append_nil]
  | cons c text ih =>
    obtain ⟨notDelimiter, notQuote, open_⟩ := clear c List.mem_cons_self
    obtain ⟨after, final, read⟩ := ih (.inr rfl) (fun d inside => clear d (List.mem_cons_of_mem _ inside))
      (field ++ [c])
    refine ⟨after, final, ?_⟩
    rw [List.append_assoc] at read
    rcases ended with rfl | rfl <;> simpa [scan_outside, notDelimiter, notQuote, open_] using read

theorem scan_doubled (delimiter : Delimiter) (value field : List Char) (record : List (List Char)) (rest : List Char) :
    scan delimiter.char .inQuotes field record (doubled value ++ ('"' :: rest)) =
      scan delimiter.char .behindQuote (field ++ value) record rest := by
  induction value generalizing field with
  | nil => simp [doubled, scan_inQuotes]
  | cons c value ih =>
    have later := ih (field ++ [c])
    rw [List.append_assoc] at later
    by_cases quoted : c = '"'
    · subst quoted
      simpa [doubled, scan_inQuotes, scan_outside] using later
    · simpa [doubled, scan_inQuotes, quoted] using later

theorem scan_field {delimiter : Delimiter} (spelled : SpellsField delimiter value text) (record : List (List Char))
    (rest : List Char) :
    ∃ after : State, after.Ended ∧
      scan delimiter.char .startField [] record (text ++ rest) = scan delimiter.char after value record rest := by
  cases spelled with
  | plain clear => exact scan_plain (.inl rfl) clear [] record rest
  | quoted =>
    refine ⟨.behindQuote, .inr (.inr rfl), ?_⟩
    have opened : scan delimiter.char .startField [] record (quote value ++ rest) =
        scan delimiter.char .inQuotes [] record (doubled value ++ ('"' :: rest)) := by
      simp [quote, scan_outside]
    rw [opened, scan_doubled, List.nil_append]

theorem scan_record {delimiter : Delimiter} (spelled : SpellsRecord delimiter values text) (record : List (List Char))
    (ends : EndsRecord stop rest) :
    scan delimiter.char .startField [] record (text ++ (stop ++ rest)) =
      (record ++ values) :: scan delimiter.char .startRecord [] [] rest := by
  induction spelled generalizing record with
  | @last value text field =>
    obtain ⟨after, final, read⟩ := scan_field field record (stop ++ rest)
    rw [read]
    rcases ends with rfl | rfl | rfl | ⟨rfl, rfl⟩
    · exact scan_break delimiter final rfl value record rest
    · exact scan_break delimiter final rfl value record rest
    · have first := scan_break delimiter final (c := '\r') rfl value record ('\n' :: rest)
      have second : scan delimiter.char .startRecord [] [] ('\n' :: rest) =
        scan delimiter.char .startRecord [] [] rest := by
        simp [scan_outside, isBreak, Ne.symm delimiter.notNewline]
      rw [second] at first
      exact first
    · rw [List.append_nil, scan_end final]
      rfl
  | @more value text values later field spelled ih =>
    obtain ⟨after, final, read⟩ := scan_field field record (delimiter.char :: (later ++ (stop ++ rest)))
    rw [List.append_assoc, List.cons_append, read, scan_delimiter delimiter final, ih, List.append_assoc]
    rfl

theorem SpellsField.head {delimiter : Delimiter} (field : SpellsField delimiter value text)
    (first : text.head? = some c) :
    isBreak c = false := by
  cases field with
  | plain clear => exact (clear c (List.mem_of_mem_head? first)).2.2
  | quoted =>
    cases first
    rfl

/-- A record does not start with the end of a line. -/
theorem SpellsRecord.head {delimiter : Delimiter} (record : SpellsRecord delimiter values text)
    (first : text.head? = some c) : isBreak c = false := by
  cases record with
  | last field => exact field.head first
  | @more value text values rest field later =>
    cases text with
    | nil =>
      cases first
      simp [isBreak, delimiter.notReturn, delimiter.notNewline]
    | cons d text => exact field.head first

theorem scan_start {delimiter : Delimiter} (spelled : SpellsRecord delimiter values text) (some_ : text ≠ [])
    (rest : List Char) :
    scan delimiter.char .startRecord [] [] (text ++ rest) = scan delimiter.char .startField [] [] (text ++ rest) := by
  obtain ⟨c, later, rfl⟩ := List.exists_cons_of_ne_nil some_
  have starts := spelled.head rfl
  simp [scan_outside, starts]

/-- What a reader that strips the mark makes of a file. -/
def scanFile (delimiter : Char) (bytes : List UInt8) : List (List (List Char)) :=
  match fromUtf8 bytes with
  | some text =>
    match text.toList with
    | c :: rest => scan delimiter .startRecord [] [] (if c = byteOrderMark then rest else c :: rest)
    | [] => []
  | none => []

theorem scanFile_text (delimiter : Char) (text : List Char) :
    scanFile delimiter (encodeUtf8 text) =
      match text with
      | c :: rest => scan delimiter .startRecord [] [] (if c = byteOrderMark then rest else c :: rest)
      | [] => [] := by
  have decoded : fromUtf8 (encodeUtf8 text) = some (String.ofList text) := by
    rw [← Ascii.utf8_ofList, fromUtf8_utf8]
  rw [scanFile, decoded]
  simp only [String.toList_ofList]

/-- A character at a time, by the rules. -/
def machine (delimiter : Delimiter) : CsvReader delimiter where
  records := scan delimiter.char .startRecord [] []
  file := scanFile delimiter.char
  records_nil := rfl
  records_blank := by
    intro c broken rest
    have notQuote : c ≠ '"' := by
      rintro rfl
      cases broken
    have notDelimiter : c ≠ delimiter.char := by
      rintro rfl
      simp [isBreak, delimiter.notReturn, delimiter.notNewline] at broken
    simp [scan_outside, notQuote, notDelimiter, broken]
  records_record := by
    intro fields text stop rest spelled some_ ends
    rw [scan_start spelled some_, scan_record spelled [] ends, List.nil_append]
  file_marked := by
    intro text
    rw [scanFile_text]
    rfl
  file_unmarked := by
    intro text unmarked
    rw [scanFile_text]
    cases text with
    | nil => rfl
    | cons c rest =>
      have other : c ≠ byteOrderMark := fun same => unmarked (by rw [same]; rfl)
      simp only [if_neg other]

end QueryHive.Library.Csv
