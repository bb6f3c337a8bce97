import QueryHive.Export.Json
import QueryHive.Library.JsonRead

/-! What a JSON file of an export says to whoever reads it: whichever layout was chosen, an object for each
row, with the values the cells were given. -/
namespace QueryHive.Export.Json
open QueryHive.Library QueryHive.Store Text JsonText

section
variable (serde : Serde)

mutual

def treeOf : Json → Tree
  | .null => .null
  | .bool flag => .bool flag
  | .number number => .number (numberText serde number)
  | .string text => .string text.toList
  | .array items => .array (treesOf items)
  | .object members => .object (memberTreesOf members)

def treesOf : List Json → List Tree
  | [] => []
  | item :: rest => treeOf item :: treesOf rest

def memberTreesOf : List (String × Json) → List (List Char × Tree)
  | [] => []
  | (name, value) :: rest => (name.toList, treeOf value) :: memberTreesOf rest

end

mutual

def jsonOf : Tree → Option Json
  | .null => some .null
  | .bool flag => some (.bool flag)
  | .number token => (serde.readNumber token).map .number
  | .string text => some (.string (String.ofList text))
  | .array items => (jsonsOf items).map .array
  | .object members => (memberJsonsOf members).map .object

def jsonsOf : List Tree → Option (List Json)
  | [] => some []
  | item :: rest => do
    let value ← jsonOf item
    return value :: (← jsonsOf rest)

def memberJsonsOf : List (List Char × Tree) → Option (List (String × Json))
  | [] => some []
  | (name, tree) :: rest => do
    let value ← jsonOf tree
    return (String.ofList name, value) :: (← memberJsonsOf rest)

end

def readJson (text : List Char) : Option Json := (parse true text).bind (jsonOf serde)

def readArray (file : List UInt8) : Option (List Json) := do
  let text ← fromUtf8 file
  match ← readJson serde text.toList with
  | .array items => some items
  | _ => none

def readLines (file : List UInt8) : Option (List Json) := do
  let text ← fromUtf8 file
  (lines text.toList).mapM (readJson serde)

end

section
variable {serde : Serde}

mutual

theorem jsonOf_treeOf (lawful : serde.Lawful) (value : Json) : jsonOf serde (treeOf serde value) = some value := by
  cases value with
  | null => rfl
  | bool flag => rfl
  | number number => rw [treeOf, jsonOf, lawful.number_read]; rfl
  | string text => rw [treeOf, jsonOf, String.ofList_toList]
  | array items => rw [treeOf, jsonOf, jsonsOf_treesOf lawful items]; rfl
  | object members => rw [treeOf, jsonOf, memberJsonsOf_treesOf lawful members]; rfl

theorem jsonsOf_treesOf (lawful : serde.Lawful) (items : List Json) :
    jsonsOf serde (treesOf serde items) = some items := by
  cases items with
  | nil => rfl
  | cons item rest =>
    rw [treesOf, jsonsOf, jsonOf_treeOf lawful item, jsonsOf_treesOf lawful rest]
    rfl

theorem memberJsonsOf_treesOf (lawful : serde.Lawful) (members : List (String × Json)) :
    memberJsonsOf serde (memberTreesOf serde members) = some members := by
  cases members with
  | nil => rfl
  | cons member rest =>
    obtain ⟨name, value⟩ := member
    rw [memberTreesOf, memberJsonsOf, jsonOf_treeOf lawful value, memberJsonsOf_treesOf lawful rest]
    simp

end

theorem isNumber_numberText (lawful : serde.Lawful) (number : Number) : isNumber (numberText serde number) = true := by
  cases number with
  | posInt n => exact isNumber_nat _
  | negInt n negative => exact isNumber_negative _
  | float bits finite => exact lawful.float_number bits finite

theorem scalarString_chars (lawful : serde.Lawful) (text : String) :
    ∃ body, Chars true text.toList body ∧ scalarString serde text = '"' :: (body ++ ['"']) := by
  have spells := lawful.string_spells text.toList
  generalize printed : serde.string text.toList = literal at spells
  cases spells with
  | string chars => exact ⟨_, chars, printed⟩

theorem blank_nil : Blank [] := List.forall_mem_nil _

theorem blank_single (blank : isBlank c = true) : Blank [c] := fun _ mem => List.mem_singleton.mp mem ▸ blank

/-- What both layouts print for a value without parts. -/
theorem spells_scalar (lawful : serde.Lawful) (value : Json) (arrays : ∀ items, value ≠ .array items)
    (objects : ∀ members, value ≠ .object members) :
    Spells true (.value (treeOf serde value)) (scalarStringRaw serde value) := by
  cases value with
  | null => exact .null
  | bool flag => cases flag with
    | false => exact .falsity
    | true => exact .truth
  | number number => exact .number (isNumber_numberText lawful number)
  | string text => exact lawful.string_spells text.toList
  | array items => exact absurd rfl (arrays items)
  | object members => exact absurd rfl (objects members)

theorem not_mem_joined {texts : List (List Char)} (clear : ∀ text ∈ texts, '\n' ∉ text) :
    '\n' ∉ [',', ' '].intercalate texts := by
  induction texts with
  | nil => exact List.not_mem_nil
  | cons text rest ih =>
    obtain ⟨first, later⟩ := List.forall_mem_cons.mp clear
    cases rest with
    | nil => simpa using first
    | cons next rest =>
      rw [List.intercalate_cons_cons]
      simp [first, ih later]

mutual

theorem spells_compact (lawful : serde.Lawful) (value : Json) :
    Spells true (.value (treeOf serde value)) (compact serde value) := by
  cases value with
  | array items =>
    cases items with
    | nil => exact .emptyArray blank_nil
    | cons item rest => exact .array (spells_compactItems lawful (item :: rest) (List.cons_ne_nil _ _))
  | object members =>
    cases members with
    | nil => exact .emptyObject blank_nil
    | cons member rest => exact .object (spells_compactEntries lawful (member :: rest) (List.cons_ne_nil _ _))
  | _ => exact spells_scalar lawful _ (by simp) (by simp)

theorem spells_compactItems (lawful : serde.Lawful) (items : List Json) (filled : items ≠ []) :
    Spells true (.items (treesOf serde items)) ([',', ' '].intercalate (compactItems serde items)) := by
  match items with
  | [] => exact absurd rfl filled
  | [item] =>
    have last := Spells.lastItem blank_nil (spells_compact lawful item) blank_nil
    simpa [treesOf, compactItems] using last
  | item :: next :: rest =>
    have more := spells_items_lead (blank_single (by decide : isBlank ' ' = true))
      (spells_compactItems lawful (next :: rest) (List.cons_ne_nil _ _))
    have both := Spells.nextItem blank_nil (spells_compact lawful item) blank_nil more
    simpa [treesOf, compactItems, List.intercalate_cons_cons] using both

theorem spells_compactEntries (lawful : serde.Lawful) (members : List (String × Json)) (filled : members ≠ []) :
    Spells true (.members (memberTreesOf serde members)) ([',', ' '].intercalate (compactEntries serde members)) := by
  match members with
  | [] => exact absurd rfl filled
  | [(name, value)] =>
    obtain ⟨body, chars, printed⟩ := scalarString_chars lawful name
    have last := Spells.lastMember blank_nil chars blank_nil (blank_single (by decide : isBlank ' ' = true))
      (spells_compact lawful value) blank_nil
    simpa [memberTreesOf, compactEntries, printed] using last
  | (name, value) :: next :: rest =>
    obtain ⟨body, chars, printed⟩ := scalarString_chars lawful name
    have more := spells_members_lead (blank_single (by decide : isBlank ' ' = true))
      (spells_compactEntries lawful (next :: rest) (List.cons_ne_nil _ _))
    have both := Spells.nextMember blank_nil chars blank_nil (blank_single (by decide : isBlank ' ' = true))
      (spells_compact lawful value) blank_nil more
    simpa [memberTreesOf, compactEntries, printed, List.intercalate_cons_cons] using both

end

mutual

theorem compact_clear (lawful : serde.Lawful) (value : Json) : '\n' ∉ compact serde value := by
  cases value with
  | array items =>
    have inner := compactItems_clear lawful items
    simp [compact, not_mem_joined inner]
  | object members =>
    have inner := compactEntries_clear lawful members
    simp [compact, not_mem_joined inner]
  | null => exact (by decide : '\n' ∉ ['n', 'u', 'l', 'l'])
  | bool flag => cases flag <;> simp [compact, scalarStringRaw]
  | number number => exact number_clear (isNumber_numberText lawful number)
  | string text =>
    obtain ⟨body, chars, printed⟩ := scalarString_chars lawful text
    simp [compact, scalarStringRaw, printed, chars_clear chars]

theorem compactItems_clear (lawful : serde.Lawful) (items : List Json) :
    ∀ text ∈ compactItems serde items, '\n' ∉ text := by
  cases items with
  | nil => exact List.forall_mem_nil _
  | cons item rest => exact List.forall_mem_cons.mpr ⟨compact_clear lawful item, compactItems_clear lawful rest⟩

theorem compactEntries_clear (lawful : serde.Lawful) (members : List (String × Json)) :
    ∀ text ∈ compactEntries serde members, '\n' ∉ text := by
  cases members with
  | nil => exact List.forall_mem_nil _
  | cons member rest =>
    obtain ⟨body, chars, printed⟩ := scalarString_chars lawful member.1
    refine List.forall_mem_cons.mpr ⟨?_, compactEntries_clear lawful rest⟩
    simp [printed, chars_clear chars, compact_clear lawful member.2]

end

mutual

theorem spells_pretty (lawful : serde.Lawful) (indent level : Nat) (value : Json) :
    Spells true (.value (treeOf serde value)) (pretty serde indent level value) := by
  cases value with
  | array items =>
    cases items with
    | nil => exact .emptyArray blank_nil
    | cons item rest =>
      have inner := spells_items_lead (blank_single (by decide : isBlank '\n' = true))
        (spells_prettyItems lawful indent level (item :: rest) (List.cons_ne_nil _ _) (blank_spaces (indent * level)))
      simpa [pretty, treeOf, pad] using Spells.array inner
  | object members =>
    cases members with
    | nil => exact .emptyObject blank_nil
    | cons member rest =>
      have inner := spells_members_lead (blank_single (by decide : isBlank '\n' = true))
        (spells_prettyEntries lawful indent level (member :: rest) (List.cons_ne_nil _ _)
        (blank_spaces (indent * level)))
      simpa [pretty, treeOf, pad] using Spells.object inner
  | _ => exact spells_scalar lawful _ (by simp) (by simp)

/-- The blanks behind the last item are those in front of the closing bracket. -/
theorem spells_prettyItems (lawful : serde.Lawful) (indent level : Nat) (items : List Json) (filled : items ≠ [])
    (trail : Blank gap) : Spells true (.items (treesOf serde items)) (prettyItems serde indent level items ++ gap) := by
  match items with
  | [] => exact absurd rfl filled
  | [item] =>
    have last := Spells.lastItem (blank_spaces (indent * (level + 1))) (spells_pretty lawful indent (level + 1) item)
      (blank_append (blank_single (by decide : isBlank '\n' = true)) trail)
    simpa [treesOf, prettyItems, pad, comma] using last
  | item :: next :: rest =>
    have more := spells_items_lead (blank_single (by decide : isBlank '\n' = true))
      (spells_prettyItems lawful indent level (next :: rest) (List.cons_ne_nil _ _) trail)
    have both := Spells.nextItem (blank_spaces (indent * (level + 1))) (spells_pretty lawful indent (level + 1) item)
      blank_nil more
    simpa [treesOf, prettyItems, pad, comma] using both

theorem spells_prettyEntries (lawful : serde.Lawful) (indent level : Nat) (members : List (String × Json))
    (filled : members ≠ []) (trail : Blank gap) :
    Spells true (.members (memberTreesOf serde members)) (prettyEntries serde indent level members ++ gap) := by
  match members with
  | [] => exact absurd rfl filled
  | [(name, value)] =>
    obtain ⟨body, chars, printed⟩ := scalarString_chars lawful name
    have last := Spells.lastMember (blank_spaces (indent * (level + 1))) chars blank_nil
      (blank_single (by decide : isBlank ' ' = true)) (spells_pretty lawful indent (level + 1) value)
      (blank_append (blank_single (by decide : isBlank '\n' = true)) trail)
    simpa [memberTreesOf, prettyEntries, printed, pad, comma] using last
  | (name, value) :: next :: rest =>
    obtain ⟨body, chars, printed⟩ := scalarString_chars lawful name
    have more := spells_members_lead (blank_single (by decide : isBlank '\n' = true))
      (spells_prettyEntries lawful indent level (next :: rest) (List.cons_ne_nil _ _) trail)
    have both := Spells.nextMember (blank_spaces (indent * (level + 1))) chars blank_nil
      (blank_single (by decide : isBlank ' ' = true)) (spells_pretty lawful indent (level + 1) value) blank_nil more
    simpa [memberTreesOf, prettyEntries, printed, pad, comma] using both

end

theorem setLinesIn_eq (front : List Char) (printed : isBlank c = false) :
    setLinesIn (front ++ [c]) = [' ', ' '] ++ setIn [' ', ' '] (front ++ [c]) := by
  have other : c ≠ '\n' := by
    rintro rfl
    cases printed
  induction front with
  | nil => rw [List.nil_append, setIn_cons other, setLinesIn, splitInclusive, if_neg other]; rfl
  | cons d front ih =>
    rw [List.cons_append]
    by_cases ends : d = '\n'
    · subst ends
      have step : setLinesIn ('\n' :: (front ++ [c])) = [' ', ' ', '\n'] ++ setLinesIn (front ++ [c]) := rfl
      rw [step, ih]
      rfl
    · rw [setIn_cons ends]
      rw [setLinesIn] at ih
      rw [setLinesIn, splitInclusive, if_neg ends]
      cases lines : splitInclusive (front ++ [c]) with
      | nil =>
        rw [lines] at ih
        cases ih
      | cons line more =>
        rw [lines, List.flatMap_cons, List.append_assoc] at ih
        rw [← List.append_cancel_left ih]
        rfl

def elementText (serde : Serde) (indent : Nat) (object : Json) : List Char :=
  setIn [' ', ' '] (pretty serde indent 0 object)

theorem elementText_spells (lawful : serde.Lawful) (indent : Nat) (object : Json) :
    Spells true (.value (treeOf serde object)) (elementText serde indent object) :=
  spells_setIn (blank_spaces 2) (spells_pretty lawful indent 0 object)

theorem setLinesIn_pretty (lawful : serde.Lawful) (indent : Nat) (object : Json) :
    setLinesIn (pretty serde indent 0 object) = [' ', ' '] ++ elementText serde indent object := by
  obtain ⟨front, c, ends, printed⟩ := spells_last (spells_pretty lawful indent 0 object)
  rw [elementText, ends, setLinesIn_eq front printed]

/-- The rows behind the first. -/
def moreText (serde : Serde) (indent : Nat) (objects : List Json) : List Char :=
  objects.flatMap fun object => [',', '\n', ' ', ' '] ++ elementText serde indent object

def arrayText (serde : Serde) (indent : Nat) : List Json → List Char
  | [] => ['[', '\n', ']', '\n']
  | object :: rest =>
    ['[', '\n', ' ', ' '] ++ elementText serde indent object ++ moreText serde indent rest ++ ['\n', ']', '\n']

def linesText (serde : Serde) (objects : List Json) : List Char :=
  objects.flatMap fun object => compact serde object ++ ['\n']

section
variable (floats : Buffer.FloatText) (quotient : BitVec 128 → UInt8 → UInt64)

theorem foldl_lines (writer : JsonWriter) (lines : writer.lines = true) (rows : List (List Value)) :
    rows.foldl (JsonWriter.writeRow floats quotient serde) writer =
      { writer with
        out := writer.out ++ encodeUtf8 (linesText serde (rows.map (rowObject floats quotient writer.names))) } := by
  induction rows generalizing writer with
  | nil => simp [linesText, encodeUtf8]
  | cons row rest ih =>
    have step : writer.writeRow floats quotient serde row =
        { writer with
          out := writer.out ++ encodeUtf8 (compact serde (rowObject floats quotient writer.names row) ++
            ['\n']) } := if_pos lines
    rw [List.foldl_cons, step]
    refine Eq.trans (ih _ ?_) ?_
    · exact lines
    simp only [linesText, List.map_cons, List.flatMap_cons, encodeUtf8_append, List.append_assoc]

theorem foldl_more (lawful : serde.Lawful) (writer : JsonWriter) (array : writer.lines = false)
    (later : writer.first = false) (rows : List (List Value)) :
    rows.foldl (JsonWriter.writeRow floats quotient serde) writer =
      { writer with
        out := writer.out ++
          encodeUtf8 (moreText serde writer.indent (rows.map (rowObject floats quotient writer.names))) } := by
  induction rows generalizing writer with
  | nil => simp [moreText, encodeUtf8]
  | cons row rest ih =>
    have step : writer.writeRow floats quotient serde row =
        { writer with
          out := writer.out ++ encodeUtf8 ([',', '\n', ' ', ' '] ++
            elementText serde writer.indent (rowObject floats quotient writer.names row)) } := by
      rw [JsonWriter.writeRow, array, later]
      simp only [Bool.false_eq_true, if_false, setLinesIn_pretty lawful]
      rfl
    rw [List.foldl_cons, step]
    refine Eq.trans (ih _ ?_ ?_) ?_
    · exact array
    · exact later
    simp only [moreText, List.map_cons, List.flatMap_cons, encodeUtf8_append, List.append_assoc]

def rowObjects (columns : List Dbf.ColumnMeta) (rows : List (List Value)) : List Json :=
  rows.map (rowObject floats quotient (columns.map Dbf.ColumnMeta.name))

theorem export_lines (columns : List Dbf.ColumnMeta) (options : Options) (rows : List (List Value))
    (lines : options.jsonl = true) :
    export_ floats quotient serde columns options rows =
      encodeUtf8 (linesText serde (rowObjects floats quotient columns rows)) := by
  have same : (JsonWriter.new columns options).lines = true := lines
  rw [export_, foldl_lines floats quotient _ same, JsonWriter.finish, if_pos same]
  simp only [JsonWriter.new, lines, if_true, List.nil_append]
  rfl

theorem export_array (lawful : serde.Lawful) (columns : List Dbf.ColumnMeta) (options : Options)
    (rows : List (List Value)) (array : options.jsonl = false) :
    export_ floats quotient serde columns options rows =
      encodeUtf8 (arrayText serde options.indent (rowObjects floats quotient columns rows)) := by
  have same : (JsonWriter.new columns options).lines = false := array
  cases rows with
  | nil =>
    simp only [export_, List.foldl_nil, JsonWriter.finish, JsonWriter.new, array, rowObjects, List.map_nil, arrayText]
    rfl
  | cons row rest =>
    have step : (JsonWriter.new columns options).writeRow floats quotient serde row =
        { JsonWriter.new columns options with
          out := encodeUtf8 (['[', '\n', ' ', ' '] ++
            elementText serde options.indent (rowObject floats quotient (columns.map Dbf.ColumnMeta.name) row))
          first := false } := by
      simp only [JsonWriter.writeRow, JsonWriter.new, array, Bool.false_eq_true, if_false, if_true,
        setLinesIn_pretty lawful,
        List.nil_append, ← encodeUtf8_append]
      rfl
    rw [export_, List.foldl_cons, step, foldl_more floats quotient lawful _ array rfl]
    simp only [JsonWriter.finish, JsonWriter.new, array, rowObjects, List.map_cons, arrayText, encodeUtf8_append,
      Bool.false_eq_true, if_false]

end

theorem readJson_spelled (lawful : serde.Lawful) (lead : Blank before)
    (spells : Spells true (.value (treeOf serde value)) text)
    (trail : Blank after) : readJson serde (before ++ (text ++ after)) = some value := by
  rw [readJson, parse_text ⟨before, text, after, rfl, lead, spells, trail⟩]
  exact jsonOf_treeOf lawful value

theorem readJson_compact (lawful : serde.Lawful) (value : Json) :
    readJson serde (compact serde value) = some value := by
  have read := readJson_spelled lawful blank_nil (spells_compact lawful value) blank_nil
  rwa [List.nil_append, List.append_nil] at read

theorem lines_linesText (lawful : serde.Lawful) (objects : List Json) :
    lines (linesText serde objects) = objects.map (compact serde) := by
  induction objects with
  | nil => simp [linesText, lines]
  | cons object rest ih =>
    have bare : (compact serde object).getLast? ≠ some '\r' := by
      obtain ⟨front, c, ends, printed⟩ := spells_last (spells_compact lawful object)
      rw [ends, List.getLast?_concat]
      rintro ⟨⟩
      cases printed
    have step : linesText serde (object :: rest) = compact serde object ++ '\n' ::
      linesText serde rest := by simp [linesText]
    rw [step, lines_cons (compact_clear lawful object) bare, ih, List.map_cons]

theorem readLines_linesText (lawful : serde.Lawful) (objects : List Json) :
    readLines serde (encodeUtf8 (linesText serde objects)) = some objects := by
  have each : (objects.map (compact serde)).mapM (readJson serde) = some objects := by
    induction objects with
    | nil => rfl
    | cons object rest ih =>
      rw [List.map_cons, List.mapM_cons, readJson_compact lawful, ih]
      rfl
  rw [readLines, Ascii.fromUtf8_encodeUtf8]
  simp only [Option.bind_eq_bind, Option.bind_some, String.toList_ofList, lines_linesText lawful, each]

theorem spells_rows (lawful : serde.Lawful) (indent : Nat) (object : Json) (rest : List Json) :
    Spells true (.items (treesOf serde (object :: rest)))
      (elementText serde indent object ++ moreText serde indent rest ++ ['\n']) := by
  have own := elementText_spells lawful indent object
  induction rest generalizing object with
  | nil =>
    have last := Spells.lastItem blank_nil own (blank_single (by decide : isBlank '\n' = true))
    simpa [treesOf, moreText] using last
  | cons next rest ih =>
    have margin : Blank ['\n', ' ', ' '] := by decide
    have more := spells_items_lead margin (ih next (elementText_spells lawful indent next))
    have both := Spells.nextItem blank_nil own blank_nil more
    simpa [treesOf, moreText] using both

theorem readArray_arrayText (lawful : serde.Lawful) (indent : Nat) (objects : List Json) :
    readArray serde (encodeUtf8 (arrayText serde indent objects)) = some objects := by
  have read : readJson serde (arrayText serde indent objects) = some (.array objects) := by
    have trail : Blank ['\n'] := by decide
    cases objects with
    | nil =>
      have empty : Spells true (.value (treeOf serde (.array []))) ('[' :: (['\n'] ++ [']'])) := .emptyArray trail
      exact readJson_spelled lawful blank_nil empty trail
    | cons object rest =>
      have margin : Blank ['\n', ' ', ' '] := by decide
      have rows : Spells true (.value (treeOf serde (.array (object :: rest)))) _ :=
        .array (spells_items_lead margin (spells_rows lawful indent object rest))
      have read := readJson_spelled lawful blank_nil rows trail
      simpa [arrayText] using read
  rw [readArray, Ascii.fromUtf8_encodeUtf8]
  simp only [Option.bind_eq_bind, Option.bind_some, String.toList_ofList, read]

end

end QueryHive.Export.Json
