import QueryHive.Library.CopyText
import QueryHive.Transfer.PgText

/-! A row in PostgreSQL's `COPY` text format: one line, or nothing. What PostgreSQL reads of the line is the
text of each value, and of an array literal its elements. -/
namespace QueryHive.Transfer
open QueryHive.Library QueryHive.Store
open Core (DriverKind)
open Text (utf8)

/-- A refused value: which column of the row, and the rule. -/
structure Violation where
  column : Nat
  rule : Rule
  deriving DecidableEq, Repr

/-- `escape_copy`. -/
def escapeCopy (text : String) : List UInt8 :=
  (utf8 text).flatMap fun byte =>
    if byte = 92 then [92, 92]
    else if byte = 10 then [92, 110]
    else if byte = 13 then [92, 114]
    else if byte = 9 then [92, 116]
    else [byte]

section
variable (serde : Serde) (floats : Buffer.FloatText) (fuel : Nat)

/-- The loop of `write_copy_row`, from a column on: how it ends, with the values left, and the buffer. -/
def writeFields (index : Nat) : List PlannedColumn → List Value → List UInt8 →
    Option (Except Violation (List Value) × List UInt8)
  | [], values, out => some (.ok values, out)
  | _ :: _, [], out => some (.error ⟨index, .arity⟩, out)
  | column :: columns, value :: values, out => do
    let out := if 0 < index then out ++ [9] else out
    match ← pgText serde floats fuel column value with
    | .error rule => some (.error ⟨index, rule⟩, out)
    | .ok none => writeFields (index + 1) columns values (out ++ [92, 78])
    | .ok (some text) => writeFields (index + 1) columns values (out ++ escapeCopy text)

/-- `write_copy_row`. -/
def writeCopyRow (columns : List PlannedColumn) (values : List Value) (out : List UInt8) :
    Option (Except Violation Unit × List UInt8) := do
  let start := out.length
  match ← writeFields serde floats fuel 0 columns values out with
  | (.error violation, out) => some (.error violation, out)
  | (.ok (_ :: _), out) => some (.error ⟨columns.length, .arity⟩, out)
  | (.ok [], out) =>
    let out := out ++ [10]
    if (out.drop start).contains 0 then some (.error ⟨0, .nul⟩, out) else some (.ok (), out)

/-- `copy_row`: a refused row leaves nothing behind. -/
def copyRow (columns : List PlannedColumn) (values : List Value) (out : List UInt8) :
    Option (Except Violation Unit × List UInt8) := do
  let start := out.length
  match ← writeCopyRow serde floats fuel columns values out with
  | (.error violation, out) => some (.error violation, out.take start)
  | (.ok done, out) => some (.ok done, out)

end

/-- The character between the elements of an array of this type. -/
def delimiterOf : TargetType → Char
  | .builtin .geoBox _ => ';'
  | _ => ','

section
variable (serde : Serde) (floats : Buffer.FloatText)

/-- The elements of an array, as the text of each item. -/
def Elements (fuel : Nat) (element : SqlType) (inner : TargetType) (source : DriverKind) :
    List Value → List (Option (List Char)) → Prop :=
  List.Forall₂ fun item read =>
    if isNull item then read = none
    else ∃ text, pgValue serde floats fuel element inner source item = some (.ok text) ∧ read = some text.toList

/-- What is read of a value: NULL when it is null, and otherwise its text; of an array its elements, and an
array that came as a literal is that literal. -/
def Reads (fuel : Nat) (column : PlannedColumn) (value : Value) (read : Option String) : Prop :=
  pgText serde floats fuel column value = some (.ok read) ∧ (read = none ↔ isNull value = true) ∧
    ∀ inner text, column.ty.base = .array → column.resolved.ty = .array inner → read = some text →
      (∀ literal, value = .text literal → text = literal) ∧
        ∀ items, value = .array items → ∃ element elements, column.ty.element = some element ∧
          CopyText.readArray (delimiterOf inner) text.toList = some elements ∧
          Elements serde floats fuel element inner column.source items elements

end

def PlannedForPostgres (column : PlannedColumn) : Prop :=
  ∃ name ty source, PlannedColumn.fromMapping name ty source .postgres (mapType ty source .postgres) = .ok column

/-- The types of columns that do not come from PostgreSQL. -/
def Foreign : TargetType → Prop
  | .builtin _ _ => False
  | .array (.builtin _ _) => False
  | _ => True

theorem Foreign.array {inner : TargetType} (foreign : Foreign inner) : Foreign (.array inner) := by
  cases inner <;> first | exact foreign | exact trivial

theorem Foreign.delimiter {inner : TargetType} (foreign : Foreign (.array inner)) : delimiterOf inner = ',' := by
  cases inner <;> first | rfl | exact foreign.elim

theorem mapInt_foreign (bytes : Nat) (unsigned : Bool) : Yields Foreign (mapInt bytes unsigned .postgres) := by
  unfold mapInt
  dsimp only
  split
  · exact exact_yields (by exact trivial) _
  · split_ifs <;> exact widened_yields (by exact trivial) _ _

theorem mapText_foreign (length : Option Nat) : Yields Foreign (mapText length .postgres) := by
  cases length with
  | none => exact exact_yields (by exact trivial) _
  | some n =>
    dsimp only [mapText]
    split
    · exact exact_yields (by exact trivial) _
    · exact widened_yields (by exact trivial) _ _

theorem mapChar_foreign (length : Option Nat) (source : DriverKind) :
    Yields Foreign (mapChar length source .postgres) := by
  cases length with
  | none => exact refuse_yields _
  | some n =>
    dsimp only [mapChar]
    split
    · exact exact_yields (by exact trivial) _
    · exact refuse_yields _

theorem mapDecimal_foreign (precision : Option Nat) (scale : Option Int) :
    Yields Foreign (mapDecimal precision scale .postgres) := by
  unfold mapDecimal
  split
  · exact refuse_yields _
  · cases precision with
    | none => exact exact_yields (by exact trivial) _
    | some p =>
      dsimp only
      split
      · exact refuse_yields _
      · exact exact_yields (by exact trivial) _

/-- A type that only PostgreSQL has is the type of no column, and of no element, from another source. -/
theorem mapType_foreign (other : source ≠ .postgres) : ∀ ty, Yields Foreign (mapType ty source .postgres)
  | .mk base precision scale length unsigned timeZone fractionDigits decimals element => by
    cases base with
    | bool => exact exact_yields (by exact trivial) _
    | int8 | int16 | int24 | int32 | int64 =>
      dsimp only [mapType]
      exact mapInt_foreign _ _
    | float32 =>
      dsimp only [mapType]
      split
      · exact refuse_yields _
      · exact exact_yields (by exact trivial) _
    | float64 =>
      dsimp only [mapType]
      split
      · exact refuse_yields _
      · exact exact_yields (by exact trivial) _
    | decimal => exact mapDecimal_foreign precision scale
    | text => exact mapText_foreign length
    | char => exact mapChar_foreign length source
    | binary =>
      dsimp only [mapType, mapBinary]
      exact exact_yields (by exact trivial) _
    | uuid => exact exact_yields (by exact trivial) _
    | date => exact exact_yields (by exact trivial) _
    | time =>
      dsimp only [mapType]
      apply withFraction_yields
      exact exact_yields (by exact trivial) _
    | timeTz =>
      apply withFraction_yields
      split
      · exact refuse_yields _
      · exact exact_yields (by exact trivial) _
    | timestamp =>
      apply withFraction_yields
      unfold mapTimestamp
      dsimp only
      split
      · exact fallback_yields (by exact trivial) _ _
      · exact exact_yields (by exact trivial) _
    | timestampTz =>
      dsimp only [mapType]
      apply withFraction_yields
      exact exact_yields (by exact trivial) _
    | interval => exact exact_yields (by exact trivial) _
    | json => exact exact_yields (by exact trivial) _
    | jsonb => exact exact_yields (by exact trivial) _
    | array =>
      dsimp only [mapType, mapArray]
      split
      · next inner typed =>
        cases element with
        | none => cases typed
        | some element =>
          have foreign := mapType_foreign other element
          simp only [typedElement] at typed
          split at typed
          · cases typed
          · split at typed
            · next resolved mapped =>
              cases typed
              rw [mapped] at foreign
              exact exact_yields (foreign resolved rfl).array _
            · cases typed
      · rw [if_neg other]
        exact fallback_yields (by exact trivial) _ _
    | map | row =>
      dsimp only [mapType, mapDocument]
      exact fallback_yields (by exact trivial) _ _
    | enum | set =>
      dsimp only [mapType]
      exact fallback_yields (by exact trivial) _ _
    | other => exact refuse_yields _
    | builtin kind =>
      dsimp only [mapType, mapBuiltin]
      rw [if_neg fun both => other both.2]
      exact refuse_yields _

section
variable {serde : Serde} {floats : Buffer.FloatText} {fuel : Nat} {inner : TargetType}

def literalText (first : Bool) (elements : List (Option (List Char))) : List Char :=
  if first then CopyText.elementsText elements else elements.flatMap fun value => ',' :: CopyText.element value

theorem literalText_cons (first : Bool) (value : Option (List Char)) (elements : List (Option (List Char))) :
    (if first = true then [] else [',']) ++ (CopyText.element value ++ literalText false elements) =
      literalText first (value :: elements) := by
  cases first with
  | true => exact (CopyText.elementsText_eq value elements).symm
  | false => rfl

theorem pgItems_elements (written : pgItems serde floats fuel element inner source first items = some (.ok chars)) :
    ∃ elements, Elements serde floats fuel element inner source items elements ∧
      chars = literalText first elements := by
  induction items generalizing first chars with
  | nil =>
    simp only [pgItems] at written
    cases written
    exact ⟨[], .nil, by cases first <;> rfl⟩
  | cons item items ih =>
    simp only [pgItems] at written
    split at written
    · next null =>
      obtain ⟨checked, rest, ended⟩ := Option.map_eq_some_iff.mp written
      cases checked with
      | error rule => cases ended
      | ok behind =>
        cases ended
        obtain ⟨elements, read, rfl⟩ := ih rest
        exact ⟨none :: elements, .cons (by rw [if_pos null]) read, literalText_cons first none elements⟩
    · next present =>
      obtain ⟨given, gives, later⟩ := Option.bind_eq_some_iff.mp written
      cases given with
      | error rule => cases later
      | ok text =>
        obtain ⟨checked, rest, ended⟩ := Option.map_eq_some_iff.mp later
        cases checked with
        | error rule => cases ended
        | ok behind =>
          cases ended
          obtain ⟨elements, read, rfl⟩ := ih rest
          refine ⟨some text.toList :: elements, .cons ?_ read, literalText_cons first (some text.toList) elements⟩
          rw [if_neg present]
          exact ⟨text, gives, rfl⟩

theorem pgValue_array (array : sql.base = .array)
    (written : pgValue serde floats fuel sql (.array inner) source (.array items) = some (.ok text)) :
    source ≠ .postgres ∧ ∃ element elements, sql.element = some element ∧
      CopyText.readArray ',' text.toList = some elements ∧
        Elements serde floats fuel element inner source items elements := by
  simp only [pgValue, pgArm, array] at written
  split at written
  · cases written
  · next other =>
    refine ⟨other, ?_⟩
    split at written
    · next element has =>
      obtain ⟨checked, rest, ended⟩ := Option.map_eq_some_iff.mp written
      cases checked with
      | error rule => cases ended
      | ok chars =>
        cases ended
        obtain ⟨elements, read, rfl⟩ := pgItems_elements rest
        refine ⟨element, elements, has, ?_, read⟩
        rw [String.toList_ofList]
        exact CopyText.readArray_elements elements
    · cases written

theorem pgValue_literal (array : sql.base = .array)
    (written : pgValue serde floats fuel sql (.array inner) source (.text literal) = some (.ok text)) :
    text = literal := by
  simp only [pgValue, pgArm, array] at written
  split at written
  · have passed := Option.some.inj written
    unfold noNul at passed
    split at passed
    · cases passed
    · dsimp only [pure, Except.pure, bind, Except.bind] at passed
      split at passed
      · cases passed
      · split at passed
        · cases passed
          rfl
        · cases passed
  · cases written

theorem reads_of_written {text : Option String} (planned : PlannedForPostgres column)
    (written : pgText serde floats fuel column value = some (.ok text)) :
    Reads serde floats fuel column value text := by
  refine ⟨written, ?_, ?_⟩
  · unfold pgText at written
    split at written
    · next null =>
      cases written
      simp [null]
    · next present =>
      obtain ⟨checked, given, ended⟩ := Option.map_eq_some_iff.mp written
      cases checked with
      | error rule => cases ended
      | ok given =>
        cases ended
        simp [present]
  · rintro inner text array ty rfl
    have value_written : pgValue serde floats fuel column.ty (.array inner) column.source value = some (.ok text) := by
      unfold pgText at written
      split at written
      · cases written
      · obtain ⟨checked, given, ended⟩ := Option.map_eq_some_iff.mp written
        cases checked with
        | error rule => cases ended
        | ok given' =>
          cases ended
          rwa [ty] at given
    refine ⟨?_, ?_⟩
    · rintro literal rfl
      exact pgValue_literal array value_written
    · rintro items rfl
      obtain ⟨other, element, elements, has, literal, read⟩ := pgValue_array array value_written
      obtain ⟨name, sql, source, made⟩ := planned
      have own : column.source = source := by
        generalize mapType sql source .postgres = mapping at made
        cases mapping <;> cases made <;> rfl
      have foreign : Foreign (.array inner) :=
        ty ▸ fromMapping_yields (mapType_foreign (own ▸ other) sql) made
      exact ⟨element, elements, has, foreign.delimiter.symm ▸ literal, read⟩

def fieldOf (text : Option String) : List UInt8 := CopyText.field (text.map utf8)

/-- A column's turn: its refusal, or its field and then the turns of the others. -/
theorem writeFields_cons (ran : writeFields serde floats fuel index (column :: columns) (value :: values) out =
    some (result, after)) :
    (∃ rule, result = .error ⟨index, rule⟩ ∧ after = if 0 < index then out ++ [CopyText.tab] else out) ∨
      ∃ text, pgText serde floats fuel column value = some (.ok text) ∧
        writeFields serde floats fuel (index + 1) columns values
          ((if 0 < index then out ++ [CopyText.tab] else out) ++ fieldOf text) = some (result, after) := by
  obtain ⟨checked, gives, later⟩ := Option.bind_eq_some_iff.mp ran
  cases checked with
  | error rule =>
    cases later
    exact .inl ⟨rule, rfl, rfl⟩
  | ok text =>
    refine .inr ⟨text, gives, ?_⟩
    cases text with
    | none => exact later
    | some text => exact later

theorem writeFields_spec (ran : writeFields serde floats fuel index columns values out = some (result, after)) :
    out <+: after ∧ ∀ rest, result = .ok rest → ∃ texts,
      List.Forall₂ (fun pair text => pgText serde floats fuel pair.1 pair.2 = some (.ok text))
        (columns.zip values) texts ∧
        values.length = columns.length + rest.length ∧ texts.length = columns.length ∧
        after = out ++ if index = 0 then CopyText.joined (texts.map fieldOf)
          else (texts.map fieldOf).flatMap (CopyText.tab :: ·) := by
  induction columns generalizing index values out with
  | nil =>
    simp only [writeFields, Option.some.injEq, Prod.mk.injEq] at ran
    obtain ⟨rfl, rfl⟩ := ran
    refine ⟨List.prefix_refl _, ?_⟩
    rintro rest ⟨⟩
    exact ⟨[], .nil, by simp, rfl, by split <;> simp [CopyText.joined]⟩
  | cons column columns ih =>
    have parted : out <+: if 0 < index then out ++ [CopyText.tab] else out := by
      split
      · exact List.prefix_append _ _
      · exact List.prefix_refl _
    cases values with
    | nil =>
      simp only [writeFields, Option.some.injEq, Prod.mk.injEq] at ran
      obtain ⟨rfl, rfl⟩ := ran
      exact ⟨List.prefix_refl _, fun rest impossible => by cases impossible⟩
    | cons value values =>
      rcases writeFields_cons ran with ⟨rule, rfl, rfl⟩ | ⟨text, gives, later⟩
      · exact ⟨parted, fun rest impossible => by cases impossible⟩
      · obtain ⟨kept, spec⟩ := ih later
        refine ⟨(parted.trans (List.prefix_append _ _)).trans kept, ?_⟩
        intro rest done
        obtain ⟨texts, given, length, count, rfl⟩ := spec rest done
        refine ⟨text :: texts, .cons gives given, by simp only [List.length_cons]; omega, by simp [count], ?_⟩
        rw [List.map_cons, CopyText.joined_eq, List.flatMap_cons, if_neg (Nat.succ_ne_zero index)]
        by_cases first : index = 0
        · subst first
          simp
        · rw [if_pos (Nat.pos_of_ne_zero first), if_neg first]
          simp

end

section
variable (serde : Serde) (floats : Buffer.FloatText)

theorem writeFields_settles (columns : List PlannedColumn) (index : Nat) (values : List Value) (out : List UInt8) :
    ∃ result, Settles (fun fuel => writeFields serde floats fuel index columns values out) result := by
  induction columns generalizing index values out with
  | nil => exact ⟨_, settles_some _⟩
  | cons column columns ih =>
    cases values with
    | nil => exact ⟨_, settles_some _⟩
    | cons value values =>
      obtain ⟨checked, settles⟩ := pgText_settles serde floats column value
      cases checked with
      | error rule => exact ⟨_, settles.bind (settles_some _)⟩
      | ok text =>
        cases text with
        | none =>
          obtain ⟨result, later⟩ := ih (index + 1) values ((if 0 < index then out ++ [9] else out) ++ [92, 78])
          exact ⟨result, settles.bind later⟩
        | some text =>
          obtain ⟨result, later⟩ := ih (index + 1) values ((if 0 < index then out ++ [9] else out) ++ escapeCopy text)
          exact ⟨result, settles.bind later⟩

theorem writeCopyRow_settles (columns : List PlannedColumn) (values : List Value) (out : List UInt8) :
    ∃ result, Settles (fun fuel => writeCopyRow serde floats fuel columns values out) result := by
  obtain ⟨⟨ended, after⟩, settles⟩ := writeFields_settles serde floats columns 0 values out
  rcases ended with violation | (_ | ⟨value, rest⟩)
  · exact ⟨_, settles.bind (settles_some _)⟩
  · have checked : ∃ result, (if ((after ++ [10]).drop out.length).contains 0 then some (.error ⟨0, .nul⟩,
      after ++ [10])
        else some (.ok (), after ++ [10]) : Option (Except Violation Unit × List UInt8)) = some result := by
      split <;> exact ⟨_, rfl⟩
    obtain ⟨result, same⟩ := checked
    exact ⟨result, settles.bind ⟨0, fun _ _ => same⟩⟩
  · exact ⟨_, settles.bind (settles_some _)⟩

theorem copyRow_settles (columns : List PlannedColumn) (values : List Value) (out : List UInt8) :
    ∃ result, Settles (fun fuel => copyRow serde floats fuel columns values out) result := by
  obtain ⟨⟨ended, after⟩, settles⟩ := writeCopyRow_settles serde floats columns values out
  cases ended with
  | error violation => exact ⟨_, settles.bind (settles_some _)⟩
  | ok done => exact ⟨_, settles.bind (settles_some _)⟩

theorem writeCopyRow_spec {serde : Serde} {floats : Buffer.FloatText}
    (ran : writeCopyRow serde floats fuel columns values out = some (result, after)) :
    out <+: after ∧ (result = .ok () → ∃ texts,
      List.Forall₂ (fun pair text => pgText serde floats fuel pair.1 pair.2 = some (.ok text))
        (columns.zip values) texts ∧
        values.length = columns.length ∧ texts.length = columns.length ∧
        after = out ++ (CopyText.joined (texts.map fieldOf) ++ [CopyText.lineFeed])) := by
  obtain ⟨⟨fields, behind⟩, ranFields, checked⟩ := Option.bind_eq_some_iff.mp ran
  obtain ⟨kept, spec⟩ := writeFields_spec ranFields
  rcases fields with violation | (_ | ⟨value, rest⟩)
  · cases checked
    exact ⟨kept, fun impossible => by cases impossible⟩
  · have after_eq : after = behind ++ [CopyText.lineFeed] := by
      dsimp only at checked
      split at checked <;> cases checked <;> rfl
    refine ⟨after_eq ▸ kept.trans (List.prefix_append _ _), fun _ => ?_⟩
    obtain ⟨texts, given, length, count, rfl⟩ := spec [] rfl
    exact ⟨texts, given, length, count, by rw [after_eq, if_pos rfl, List.append_assoc]⟩
  · cases checked
    exact ⟨kept, fun impossible => by cases impossible⟩

/-- What a row comes to: one line more that is read as the values, or the buffer as it was. -/
def LineOrNothing (fuel : Nat) (columns : List PlannedColumn) (values : List Value) (out : List UInt8) :
    Except Violation Unit × List UInt8 → Prop
  | (.error _, after) => after = out
  | (.ok (), after) => ∃ line texts, after = out ++ (line ++ [CopyText.lineFeed]) ∧ CopyText.lineFeed ∉ line ∧
      (∀ more, CopyText.readLine (line ++ CopyText.lineFeed :: more) = some (line, more)) ∧
      CopyText.readFields columns.length line = some (texts.map (Option.map utf8)) ∧ values.length = columns.length ∧
      List.Forall₂ (fun pair text => Reads serde floats fuel pair.1 pair.2 text) (columns.zip values) texts

/-- A row always comes to an end, and leaves one line that PostgreSQL reads as its values, or nothing. -/
theorem copy_row_line_or_nothing (columns : List PlannedColumn)
    (planned : ∀ column ∈ columns, PlannedForPostgres column) (values : List Value) (out : List UInt8) :
    ∃ result least, ∀ fuel ≥ least, copyRow serde floats fuel columns values out = some result ∧
      LineOrNothing serde floats fuel columns values out result := by
  obtain ⟨result, least, settles⟩ := copyRow_settles serde floats columns values out
  refine ⟨result, least, fun fuel enough => ⟨settles fuel enough, ?_⟩⟩
  obtain ⟨⟨written, after⟩, ran, ended⟩ := Option.bind_eq_some_iff.mp (settles fuel enough)
  obtain ⟨kept, spec⟩ := writeCopyRow_spec ran
  cases written with
  | error violation =>
    cases ended
    exact (List.prefix_iff_eq_take.mp kept).symm
  | ok done =>
    cases ended
    obtain ⟨texts, given, length, count, rfl⟩ := spec rfl
    have whole : ∀ field ∈ texts.map fieldOf, CopyText.Whole field := by
      simp only [List.mem_map, forall_exists_index, and_imp]
      rintro _ text _ rfl
      exact CopyText.whole_field _
    have fields := CopyText.readFields_fields (texts.map (Option.map utf8))
    rw [List.length_map, count, List.map_map] at fields
    refine ⟨_, texts, rfl, CopyText.joined_clear whole, CopyText.readLine_joined whole, fields, length, ?_⟩
    rw [List.forall₂_iff_zip] at given ⊢
    refine ⟨given.1, fun {pair text} mem => ?_⟩
    exact reads_of_written (planned _ (List.of_mem_zip (List.of_mem_zip mem).1).1) (given.2 mem)

end

def noJson : Serde := ⟨fun _ => none, fun impossible => by cases impossible⟩

def noFloatText : Buffer.FloatText := ⟨fun _ => "", fun _ => "", fun _ => 0⟩

def textsType : SqlType := .mk .array none none none false .none none none (some (.of .text))

def textColumn : PlannedColumn := ⟨"t", .of .text, .mysql, .postgres, ⟨.text .text, "text"⟩, .exact, none⟩

def textsColumn : PlannedColumn := ⟨"a", textsType, .trino, .postgres, ⟨.array (.text .text), "text[]"⟩, .exact, none⟩

/-- A text that spells NULL, behind an array with a quotation mark and a NULL in it. -/
theorem row_with_array_is_one_line :
    ∃ least, ∀ fuel ≥ least,
      copyRow noJson noFloatText fuel [textsColumn, textColumn] [.array [.text "\"", .null], .text "\\N"] [0x68] =
          some (.ok (), 0x68 :: utf8 "\x7b\"\\\\\"\",NULL\x7d\t\\\\N\n") ∧
        LineOrNothing noJson noFloatText fuel [textsColumn, textColumn] [.array [.text "\"", .null], .text "\\N"] [0x68]
          (.ok (), 0x68 :: utf8 "\x7b\"\\\\\"\",NULL\x7d\t\\\\N\n") := by
  have planned : ∀ column ∈ [textsColumn, textColumn], PlannedForPostgres column := by
    intro column mem
    have which : column = textsColumn ∨ column = textColumn := by simpa using mem
    rcases which with rfl | rfl
    · exact ⟨"a", textsType, .trino, rfl⟩
    · exact ⟨"t", .of .text, .mysql, rfl⟩
  have written : ∀ fuel, copyRow noJson noFloatText fuel [textsColumn, textColumn]
    [.array [.text "\"", .null], .text "\\N"]
      [0x68] = some (.ok (), 0x68 :: utf8 "\x7b\"\\\\\"\",NULL\x7d\t\\\\N\n") := fun _ => by rfl
  obtain ⟨result, least, ran⟩ := copy_row_line_or_nothing noJson noFloatText [textsColumn, textColumn] planned
    [.array [.text "\"", .null], .text "\\N"] [0x68]
  refine ⟨least, fun fuel enough => ⟨written fuel, ?_⟩⟩
  obtain ⟨given, line⟩ := ran fuel enough
  rw [written fuel] at given
  exact Option.some.inj given ▸ line

end QueryHive.Transfer
